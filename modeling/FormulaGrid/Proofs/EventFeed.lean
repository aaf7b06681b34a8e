import FormulaGrid.Proofs.ServiceTurns
import FormulaGrid.Proofs.WritableCells

/-!
# The event feed

A client receives, from the moment it comes until it goes, the events of the formula fills answered in
that time and no others: one for each cell of the answer, in its order, with the text that the cell
displays right after the fill. What other clients and other requests do makes no difference.
-/
namespace FormulaGrid

namespace Sheet

variable {s : Sheet} {key k : CellKey}

theorem read_memoize_self {e : Evaluated} (h : e.text ≠ []) :
    ((s.memoize k e).read k).1 = .ok e.text := by
  have hcached : (s.memoize k e).cached k = some e.text := by
    rw [cached, memoize_computed, if_pos rfl]
  unfold read
  rw [hcached]
  cases htext : e.text with
  | nil => exact absurd htext h
  | cons c t => rfl

theorem read_memoize_of_ne (h : key ≠ k) (e : Evaluated) :
    ((s.memoize k e).read key).1 = (s.read key).1 := by
  have hcached : (s.memoize k e).cached key = s.cached key := by
    rw [cached, memoize_computed, if_neg h, cached]
  have hshown : (s.memoize k e).forget = s.forget := rfl
  unfold read
  rw [hcached]
  split
  · rw [evaluateCell_shown, evaluateCell_shown, hshown]
  · rw [evaluateCell_shown, evaluateCell_shown, hshown]
  · rfl

/-- A reading changes nothing, or answers with the text of an evaluation and memoizes it. -/
theorem read_eq_memoize (s : Sheet) (k : CellKey) :
    (s.read k).2 = s ∨ ∃ e, e.text ≠ [] ∧ s.read k = (.ok e.text, s.memoize k e) := by
  have heval : (s.evaluateCell k).2 = s ∨
      ∃ e, e.text ≠ [] ∧ s.evaluateCell k = (.ok e.text, s.memoize k e) := by
    unfold evaluateCell
    split
    · exact Or.inl rfl
    · rename_i formula hp
      split
      · rename_i e he
        exact Or.inr ⟨e, Formula.evaluate_text_ne_nil hp he, rfl⟩
      · exact Or.inl rfl
      · exact Or.inl rfl
  unfold read
  split
  · exact heval
  · exact heval
  · exact Or.inl rfl

/-- Reading a cell changes the text of no cell. -/
theorem read_read (s : Sheet) (key k : CellKey) : ((s.read k).2.read key).1 = (s.read key).1 := by
  rcases s.read_eq_memoize k with hsame | ⟨e, htext, hread⟩
  · rw [hsame]
  · by_cases hkey : key = k
    · rw [hkey, hread]
      exact read_memoize_self htext
    · rw [hread]
      exact read_memoize_of_ne hkey e

/-- The event of a cell with the text that it displays. -/
def eventOf (s : Sheet) (key : CellKey) : Except Fault CellEvent := (s.read key).1.map (⟨key, ·⟩)

theorem eventOf_read (s : Sheet) (k : CellKey) : (s.read k).2.eventOf = s.eventOf := by
  funext key
  rw [eventOf, eventOf, read_read]

/-- The cells of a batch, all of which can be read, are heard of with the texts they display before. -/
theorem mapM_eventOf {keys : List CellKey} (h : ∀ key ∈ keys, (s.read key).1.isOk) :
    keys.mapM s.eventOf =
      .ok ((CellStore.heard s keys).map fun n => ⟨n.key, n.text⟩) := by
  induction keys generalizing s with
  | nil => rfl
  | cons key keys ih =>
    obtain ⟨hkey, hkeys⟩ := List.forall_mem_cons.mp h
    have hrest := ih (s := (s.read key).2) (by simpa only [read_read] using hkeys)
    rw [eventOf_read] at hrest
    rw [List.mapM_cons, CellStore.heard, cellStore_read, hrest, eventOf]
    cases hread : s.read key with
    | mk outcome sheet =>
      cases outcome with
      | error fault => simp [hread, Except.isOk, Except.toBool] at hkey
      | ok text => rfl

/-- The event of the cell that a reference stands for. -/
def eventAt (s : Sheet) (ref : Text) : Except Fault CellEvent := do
  let key ← CellKey.ofReference ref
  s.eventOf key

theorem mapM_eventAt {keys : List CellKey} {refs : List Text}
    (h : refs.mapM CellKey.ofReference = .ok keys) : refs.mapM s.eventAt = keys.mapM s.eventOf := by
  rw [mapM_eq_ok] at h
  induction h with
  | nil => rfl
  | cons href _ ih => rw [List.mapM_cons, List.mapM_cons, ih, eventAt, href]; rfl

end Sheet

/-- Steps in which a client of this name comes or goes. -/
def ClientStep.concerns (name : String) : ClientStep → Bool
  | .request _ => false
  | .connect other => other = name
  | .disconnect other => other = name

namespace Service
open CellStore

variable {s : Service} {name : String} {c : ClientStep} {steps : List ClientStep}

/-- The events that a step announces: of each cell that it says a formula was filled into, in the order
of the answer, with the text that the cell displays then. -/
def announced (s : Service) (c : ClientStep) : Except Fault (List CellEvent) :=
  match s.act c with
  | (.ok (.reply (.filled refs true)), s) => refs.mapM s.sheet.eventAt
  | _ => .ok []

/-- The cells left to be read can be read. -/
def Readable (s : Service) : Prop := ∀ key ∈ s.session.queue.flatten, (s.sheet.read key).1.isOk

instance (s : Service) : Decidable s.Readable :=
  inferInstanceAs (Decidable (∀ key ∈ s.session.queue.flatten, (s.sheet.read key).1.isOk))

theorem announced_of_unqueued {r : Request} {sheet : Sheet}
    (h : s.Unqueued (s.handle r) sheet) : s.announced (.request r) = .ok [] := by
  have hnone := h.unfilled
  unfold announced
  rw [act_request]
  cases hreply : (s.handle r).1 with
  | error fault => rfl
  | ok reply =>
    cases reply with
    | filled refs isFormula =>
      cases isFormula with
      | false => rfl
      | true =>
        obtain rfl := hnone refs hreply
        rfl
    | _ => rfl

/-- What a fill of a formula announces is what waits to be sent. -/
theorem announced_of_queued {r : Request} {source target : CellKey} {keys : List CellKey}
    {sheet : Sheet} (h : s.Queued (s.handle r) source target keys sheet)
    (hrows : IntegerText.Printable s.settings.rows) (hread : (s.act (.request r)).2.Readable) :
    s.announced (.request r) = .ok (s.act (.request r)).2.waiting := by
  have hwritable : ∀ key ∈ keys, key.Writable := by
    intro key hkey
    have hcontains := h.contains hkey
    simp only [Settings.contains, Bool.and_eq_true, decide_eq_true_eq] at hcontains
    exact ⟨by omega, by omega, hrows.of_le (by omega) (by omega)⟩
  obtain ⟨refs, hrefs⟩ := CellKey.exists_mapM_toReference hwritable
  have hkeys : refs.mapM CellKey.ofReference = .ok keys :=
    CellKey.mapM_ofReference (fun key hkey => ⟨(hwritable key hkey).row, (hwritable key hkey).col⟩) hrefs
  have hreply : filledReply sheet source keys = .ok (.filled refs true) :=
    filledReply_eq_ok.mpr ⟨refs, hrefs, by rw [h.isFormula]⟩
  have hact : s.act (.request r) = (.ok (.reply (.filled refs true)), s.withQueue sheet [keys]) := by
    rw [act_request, h.reply, hreply]
    rfl
  have hqueue : (s.withQueue sheet [keys]).session.queue.flatten = keys := by simp [withQueue]
  have hsheet : (s.withQueue sheet [keys]).sheet = sheet := rfl
  rw [hact, Readable, hqueue] at hread
  simp only [announced, hact]
  rw [Sheet.mapM_eventAt hkeys, Sheet.mapM_eventOf hread, waiting, hqueue]

theorem announced_eq (hrest : s.session.AtRest) (hrows : IntegerText.Printable s.settings.rows)
    (hread : (s.act c).2.Readable) : s.announced c = .ok (s.act c).2.waiting := by
  have hnone (clients : List String) : { s with clients := clients }.waiting = [] := by
    simp [waiting, hrest.empty, heard]
  cases c with
  | request r =>
    rcases handle_leaves hrest r with ⟨sheet, hleaves⟩ | ⟨source, target, keys, sheet, hleaves⟩
    · rw [announced_of_unqueued hleaves, act_request, hleaves.left]
      rfl
    · exact announced_of_queued hleaves hrows hread
  | connect other =>
    exact congrArg Except.ok (hnone (s.clients ++ [other])).symm
  | disconnect other =>
    exact congrArg Except.ok (hnone (s.clients.erase other)).symm

/-- The event data that a client receives of what is sent. -/
def received (name : String) (sent : Deliveries) : List Text :=
  (sent.filter (·.1 = name)).flatMap Prod.snd

def receivedAll (s : Service) (name : String) : List ClientStep → List Text
  | [] => []
  | c :: steps => received name (s.turn c).2.1 ++ (s.turn c).2.2.receivedAll name steps

def announcedAll (s : Service) : List ClientStep → Except Fault (List CellEvent)
  | [] => .ok []
  | c :: steps => do
    let first ← s.announced c
    let others ← (s.turn c).2.2.announcedAll steps
    return first ++ others

/-- After every step the cells left to be read can be read. -/
def ReadableAll (s : Service) (steps : List ClientStep) : Prop :=
  s.Obeys (fun s c => (s.act c).2.Readable) steps

instance (s : Service) (steps : List ClientStep) : Decidable (s.ReadableAll steps) :=
  inferInstanceAs (Decidable (s.Obeys (fun s c => (s.act c).2.Readable) steps))

theorem receivedAll_append (s : Service) (name : String) (steps others : List ClientStep) :
    s.receivedAll name (steps ++ others) =
      s.receivedAll name steps ++ (s.afterSteps steps).receivedAll name others := by
  induction steps generalizing s with
  | nil => rfl
  | cons c steps ih =>
    rw [List.cons_append, receivedAll, receivedAll, ih, List.append_assoc, afterSteps_cons]

/-- A client receives what waits to be sent once for each time that it is connected. -/
theorem received_settle (h : s.session.Primed) (name : String) : received name s.settle.1 =
    (List.replicate (s.clients.count name) (s.waiting.map CellEvent.data)).flatten := by
  rw [settle_of_primed h, received]
  by_cases hwaiting : s.waiting = []
  · simp [hwaiting]
  · simp only [List.isEmpty_iff, hwaiting, if_false]
    induction s.clients with
    | nil => rfl
    | cons client clients ih =>
      by_cases hclient : client = name
      · simpa [hclient, List.count_cons, List.replicate_succ] using ih
      · simpa [hclient, List.count_cons] using ih

theorem act_count (hrest : s.session.AtRest) (hc : ¬c.concerns name) :
    (s.act c).2.clients.count name = s.clients.count name := by
  cases c with
  | request r =>
    obtain ⟨sheet, batches, -, -, hleft⟩ := handle_eq_withQueue hrest r
    rw [act_request, hleft]
    rfl
  | connect other =>
    have hne : other ≠ name := by simpa [ClientStep.concerns] using hc
    simp [act, hne]
  | disconnect other =>
    have hne : name ≠ other := fun heq => hc (by simp [ClientStep.concerns, heq])
    exact List.count_erase_of_ne hne

theorem turn_clients (hrest : s.session.AtRest) (c : ClientStep) :
    (s.turn c).2.2.clients = (s.act c).2.clients := by
  rw [turn_eq hrest]
  rfl

theorem afterSteps_count (hrest : s.session.AtRest) (hsteps : ∀ c ∈ steps, ¬c.concerns name) :
    (s.afterSteps steps).clients.count name = s.clients.count name := by
  induction steps generalizing s with
  | nil => rfl
  | cons c steps ih =>
    obtain ⟨hc, hsteps⟩ := List.forall_mem_cons.mp hsteps
    rw [afterSteps_cons, ih (atRest_turn hrest c) hsteps, turn_clients hrest, act_count hrest hc]

theorem received_turn (hrest : s.session.AtRest) (hc : ¬c.concerns name) :
    received name (s.turn c).2.1 =
      (List.replicate (s.clients.count name) ((s.act c).2.waiting.map CellEvent.data)).flatten := by
  rw [turn_eq hrest, received_settle (primed_act hrest c), act_count hrest hc]

/-- A client that is not connected receives nothing. -/
theorem receivedAll_of_absent (hrest : s.session.AtRest) (habsent : s.clients.count name = 0)
    (hsteps : ∀ c ∈ steps, ¬c.concerns name) : s.receivedAll name steps = [] := by
  induction steps generalizing s with
  | nil => rfl
  | cons c steps ih =>
    obtain ⟨hc, hsteps⟩ := List.forall_mem_cons.mp hsteps
    have hcount : (s.turn c).2.2.clients.count name = 0 := by
      rw [turn_clients hrest, act_count hrest hc, habsent]
    rw [receivedAll, received_turn hrest hc, habsent, ih (atRest_turn hrest c) hcount hsteps]
    rfl

/-- A client that is connected once receives the data of what is announced. -/
theorem exists_announcedAll (hrest : s.session.AtRest) (hrows : IntegerText.Printable s.settings.rows)
    (hone : s.clients.count name = 1) (hsteps : ∀ c ∈ steps, ¬c.concerns name)
    (hread : s.ReadableAll steps) : ∃ events, s.announcedAll steps = .ok events ∧
      s.receivedAll name steps = events.map CellEvent.data := by
  induction steps generalizing s with
  | nil => exact ⟨[], rfl, rfl⟩
  | cons c steps ih =>
    obtain ⟨hc, hsteps⟩ := List.forall_mem_cons.mp hsteps
    have hcount : (s.turn c).2.2.clients.count name = 1 := by
      rw [turn_clients hrest, act_count hrest hc, hone]
    have hreceived : received name (s.turn c).2.1 = (s.act c).2.waiting.map CellEvent.data := by
      rw [received_turn hrest hc, hone]
      simp
    obtain ⟨events, hothers, hall⟩ :=
      ih (atRest_turn hrest c) (by rwa [turn_settings hrest]) hcount hsteps hread.2
    refine ⟨(s.act c).2.waiting ++ events, ?_, ?_⟩
    · rw [announcedAll, announced_eq hrest hrows hread.1, hothers]
      rfl
    · rw [receivedAll, hreceived, hall, List.map_append]

/-- Nothing is sent when a client comes or goes. -/
theorem turn_of_idle {clients : List String} (hrest : s.session.AtRest)
    (hact : (s.act c).2 = { s with clients := clients }) : (s.turn c).2.1 = [] := by
  have hwaiting : (s.act c).2.waiting = [] := by
    simp [hact, waiting, hrest.empty, heard]
  rw [turn_eq hrest, settle_of_primed (primed_act hrest c), hwaiting]
  rfl

/-- Every client sees every refresh exactly once. Of an application with nothing queued and no listener of
its own but the feed, a client receives nothing before it has come and nothing after it has gone, and in
between exactly the events that the formula fills in that time announce, in their order: what it receives
are the data of these events and of no others. The cells that a fill leaves to be read have to be readable. -/
theorem feed_exactly_once {env : Environment} {settings : Settings} {session : Session Sheet}
    {name : String} {before during after : List ClientStep}
    (henv : Settings.ofEnvironment env = .ok settings) (hsession : session.Unused)
    (hothers : ∀ c ∈ before ++ during ++ after, ¬c.concerns name)
    (hread : ((start settings session).afterSteps (before ++ [.connect name])).ReadableAll during) :
    let s := start settings session
    let connected := s.afterSteps (before ++ [.connect name])
    s.receivedAll name (before ++ [.connect name]) = [] ∧
    (∃ events, connected.announcedAll during = .ok events ∧
      connected.receivedAll name during = events.map CellEvent.data ∧
      ∀ others : List CellEvent, connected.receivedAll name during = others.map CellEvent.data →
        others = events) ∧
    (connected.afterSteps during).receivedAll name (.disconnect name :: after) = [] := by
  intro s connected
  simp only [List.forall_mem_append] at hothers
  obtain ⟨⟨hbefore, hduring⟩, hafter⟩ := hothers
  have hrest : s.session.AtRest := atRest_start settings hsession
  have hjoining : (s.afterSteps before).session.AtRest := atRest_afterSteps hrest before
  have hconnected : connected.session.AtRest := atRest_afterSteps hrest _
  have hleaving : (connected.afterSteps during).session.AtRest := atRest_afterSteps hconnected during
  have habsent : (s.afterSteps before).clients.count name = 0 := afterSteps_count hrest hbefore
  have hone : connected.clients.count name = 1 := by
    rw [show connected = _ from afterSteps_concat s before _, turn_clients hjoining]
    simp [act, habsent]
  have hrows : IntegerText.Printable connected.settings.rows := by
    rw [afterSteps_settings hrest]
    exact Settings.printable_rows henv
  obtain ⟨events, hannounced, hreceived⟩ := exists_announcedAll hconnected hrows hone hduring hread
  have honly : ∀ others : List CellEvent, connected.receivedAll name during = others.map CellEvent.data →
      others = events := by
    intro others hothers
    exact List.map_injective_iff.mpr CellEvent.data_injective (hothers.symm.trans hreceived)
  refine ⟨?_, ⟨events, hannounced, hreceived, honly⟩, ?_⟩
  · rw [receivedAll_append, receivedAll_of_absent hrest rfl hbefore]
    simp [receivedAll, turn_of_idle hjoining (c := .connect name) rfl, received]
  · have hgone : ((connected.afterSteps during).turn (.disconnect name)).2.2.clients.count name =
        0 := by
      rw [turn_clients hleaving]
      simp [act, afterSteps_count hconnected hduring, hone]
    rw [receivedAll, turn_of_idle hleaving (c := .disconnect name) rfl,
      receivedAll_of_absent (atRest_turn hleaving _) hgone hafter]
    rfl

/-- A grid of four rows and three columns. -/
def smallEnvironment : Environment :=
  [("GRID_TOTAL_ROWS", ['4']), ("GRID_TOTAL_COLUMNS", ['3'])]

def smallSettings : Settings := ⟨4, 3, 50, false⟩

def beforeOne : List ClientStep :=
  [.request (.edit ⟨1, 0⟩ ['=', 'B', '1']), .connect "other"]

/-- While both clients are connected a cell is edited; then one goes, and the other hears of the fill. -/
def duringOne : List ClientStep :=
  [.request (.edit ⟨2, 1⟩ ['5']), .disconnect "other", .request (.fill ⟨1, 0⟩ ⟨3, 0⟩)]

theorem feed_exactly_once_filled :
    let s := start smallSettings (.start (Sheet.empty 3 false))
    let connected := s.afterSteps (beforeOne ++ [.connect "one"])
    Settings.ofEnvironment smallEnvironment = .ok smallSettings ∧
    (Session.start (Sheet.empty 3 false)).Unused ∧
    (∀ c ∈ beforeOne ++ duringOne ++ duringOne, ¬c.concerns "one") ∧
    connected.ReadableAll duringOne ∧
    s.receivedAll "one" (beforeOne ++ [.connect "one"]) = [] ∧
    connected.receivedAll "one" duringOne =
      ["\x7b\"type\": \"cell\", \"row\": 2, \"col\": 0, \"value\": \"5\"\x7d".toList,
        "\x7b\"type\": \"cell\", \"row\": 3, \"col\": 0, \"value\": \"0\"\x7d".toList] ∧
    (∀ others : List CellEvent, connected.receivedAll "one" duringOne = others.map CellEvent.data →
      others = [⟨⟨2, 0⟩, ['5']⟩, ⟨⟨3, 0⟩, ['0']⟩]) ∧
    (connected.afterSteps duringOne).receivedAll "one" (.disconnect "one" :: duringOne) = [] := by
  intro s connected
  have henv : Settings.ofEnvironment smallEnvironment = .ok smallSettings := by decide +kernel
  have hsession : (Session.start (Sheet.empty 3 false)).Unused := ⟨rfl, rfl, rfl, rfl⟩
  have hothers : ∀ c ∈ beforeOne ++ duringOne ++ duringOne, ¬c.concerns "one" := by
    decide
  have hread : connected.ReadableAll duringOne := by decide +kernel
  have hannounced : connected.announcedAll duringOne =
      .ok [⟨⟨2, 0⟩, ['5']⟩, ⟨⟨3, 0⟩, ['0']⟩] := by decide +kernel
  obtain ⟨hbefore, ⟨events, hduring, hreceived, honly⟩, hafter⟩ :=
    feed_exactly_once henv hsession hothers hread
  obtain rfl := Except.ok.inj (hduring.symm.trans hannounced)
  have hdata : [⟨⟨2, 0⟩, ['5']⟩, ⟨⟨3, 0⟩, ['0']⟩].map CellEvent.data =
      ["\x7b\"type\": \"cell\", \"row\": 2, \"col\": 0, \"value\": \"5\"\x7d".toList,
        "\x7b\"type\": \"cell\", \"row\": 3, \"col\": 0, \"value\": \"0\"\x7d".toList] := by
    decide +kernel
  exact ⟨henv, hsession, hothers, hread, hbefore, hreceived.trans hdata, honly, hafter⟩

end Service

end FormulaGrid
