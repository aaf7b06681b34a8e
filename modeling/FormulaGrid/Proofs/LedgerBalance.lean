import FormulaGrid.Proofs.RefreshLedger
import Mathlib.Data.List.Nodup
import Mathlib.Data.List.Pairwise
import Mathlib.Data.List.Perm.Basic

/-!
# The balance of the ledger

Every entry of the ledger keeps its balance. Since all tickets are different, what is in one of the
accounts is in no other, and this tells a cell that is read from all that was read before.
-/
namespace FormulaGrid.Ledger

variable {l : Ledger} {batch : List Ticket} {ticket : Ticket}

theorem balanced_blank : blank.Balanced where
  numbered := rfl
  conserved := List.Perm.refl _
  taken_in_order := List.Sublist.refl _
  visited_in_order _ h := by cases h
  unvisited _ h := by cases h
  due _ h := by cases h
  calls_visited _ h := by cases h
  own_calls _ h := by cases h
  counted_once := List.nodup_nil
  counted_visited := List.Subset.refl _

theorem visitedOf_eq_nil (hbatch : ∀ ticket ∈ batch, ticket ∉ l.visited) :
    l.visitedOf batch = [] := by
  rw [visitedOf, List.filter_eq_nil_iff]
  intro ticket hvisited hmem
  exact hbatch ticket (of_decide_eq_true hmem) hvisited

namespace Balanced

theorem nodup_issued (h : l.Balanced) : l.issued.flatten.Nodup :=
  List.Nodup.of_map Ticket.number (h.numbered ▸ List.nodup_range)

theorem nodup_accounts (h : l.Balanced) : l.accounts.Nodup :=
  h.conserved.nodup_iff.mpr h.nodup_issued

theorem mem_issued_of_taken (h : l.Balanced) (hb : batch ∈ l.taken) : batch ∈ l.issued :=
  h.taken_in_order.subset (List.mem_append_left _ hb)

theorem visited_issued (h : l.Balanced) : l.visited ⊆ l.issued.flatten := by
  intro ticket hticket
  apply h.conserved.mem_iff.mp
  simp [accounts, hticket]

/-- An entry that moves tickets from one account to another conserves them. -/
theorem conserved_of_count (h : l.Balanced) {l' : Ledger} (hissued : l'.issued = l.issued)
    (hcount : ∀ ticket, l'.accounts.count ticket = l.accounts.count ticket) :
    l'.accounts.Perm l'.issued.flatten := by
  rw [hissued]
  exact (List.perm_iff_count.mpr hcount).trans h.conserved

/-- No ticket is in two batches. -/
theorem eq_of_mem (h : l.Balanced) {other : List Ticket} (hb : batch ∈ l.issued)
    (ho : other ∈ l.issued) (htb : ticket ∈ batch) (hto : ticket ∈ other) : batch = other := by
  have : Std.Symm (@List.Disjoint Ticket) := ⟨fun _ _ hd _ hb ha => hd ha hb⟩
  by_contra hne
  exact (List.nodup_flatten.mp h.nodup_issued).2.forall hb ho hne htb hto

end Balanced

theorem callsOf_append (calls others : List (Ticket × Notice)) :
    callsOf ticket (calls ++ others) = callsOf ticket calls ++ callsOf ticket others := by
  rw [callsOf, List.filter_append, List.map_append]
  rfl

theorem callsOf_eq_nil {calls : List (Ticket × Notice)} (h : ∀ call ∈ calls, call.1 ≠ ticket) :
    callsOf ticket calls = [] := by
  rw [callsOf, List.filter_eq_nil_iff.mpr]
  · rfl
  · intro call hcall heq
    exact h call hcall (of_decide_eq_true heq)

theorem tasks_interrupt (l : Ledger) : l.interrupt.tasks = l.tasks.tail := by
  unfold interrupt
  split
  · rename_i htasks
    simp [htasks]
  · rename_i htasks
    simp [htasks]

theorem interruptAll_interrupt (l : Ledger) : l.interrupt.interruptAll = l.interruptAll := by
  rw [interruptAll, tasks_interrupt, interruptAll]
  cases htasks : l.tasks with
  | nil => simp [interrupt, htasks]
  | cons task tasks => rfl

theorem number_tickets (first : Nat) (keys : List CellKey) :
    (tickets first keys).map Ticket.number = List.range' first keys.length := by
  rw [tickets, List.map_map, ← List.zipIdx_map_snd]
  rfl

theorem key_tickets (first : Nat) (keys : List CellKey) :
    (tickets first keys).map Ticket.key = keys := by
  rw [tickets, List.map_map]
  exact List.zipIdx_map_fst first keys

theorem callsOf_due (other : Ticket) (due : List Notice) :
    callsOf other (due.map (Prod.mk ticket)) = if other = ticket then due else [] := by
  by_cases heq : other = ticket
  · simp [callsOf, heq, List.filter_map, Function.comp_def]
  · simp [callsOf, heq, Ne.symm heq, List.filter_map, Function.comp_def]

namespace Balanced

theorem issue (h : l.Balanced) (keys : List CellKey) : (l.issue keys).Balanced := by
  have hnumbered : (l.issue keys).issued.flatten.map Ticket.number =
      List.range (l.issue keys).issued.flatten.length := by
    have hlength : (tickets l.issued.flatten.length keys).length = keys.length := by
      simp [tickets]
    simp only [Ledger.issue, List.flatten_append, List.flatten_singleton, List.map_append,
      List.length_append, h.numbered, number_tickets, hlength]
    rw [List.range_eq_range', List.range_eq_range', ← List.range'_append_1, Nat.zero_add]
  -- the new tickets are none of those issued before
  have hfresh : ∀ ticket ∈ tickets l.issued.flatten.length keys, ticket ∉ l.visited := by
    have hnodup : (l.issued.flatten ++ tickets l.issued.flatten.length keys).Nodup := by
      have hall := List.Nodup.of_map Ticket.number (hnumbered ▸ List.nodup_range)
      simpa [Ledger.issue] using hall
    intro ticket hticket hvisited
    exact List.disjoint_of_nodup_append hnodup (h.visited_issued hvisited) hticket
  exact {
    numbered := hnumbered
    conserved := by
      rw [List.perm_iff_count]
      intro ticket
      have hcount := List.perm_iff_count.mp h.conserved ticket
      simp only [accounts, Ledger.issue, visited, List.flatten_append, List.flatten_singleton,
        List.count_append] at hcount ⊢
      omega
    taken_in_order := by
      simpa [Ledger.issue] using h.taken_in_order.append (List.Sublist.refl _)
    visited_in_order := by
      intro batch hbatch
      rcases List.mem_append.mp hbatch with hold | hnew
      · exact h.visited_in_order batch hold
      · obtain rfl := List.mem_singleton.mp hnew
        have hnone := visitedOf_eq_nil hfresh
        exact hnone ▸ List.nil_prefix
    unvisited := h.unvisited
    due := h.due
    calls_visited := h.calls_visited
    own_calls := h.own_calls
    counted_once := h.counted_once
    counted_visited := h.counted_visited }

theorem clear (h : l.Balanced) : l.clear.Balanced where
  numbered := h.numbered
  conserved := by
    refine h.conserved_of_count rfl fun ticket => ?_
    simp only [accounts, Ledger.clear, visited, List.flatten_nil, List.count_append, List.count_nil]
    omega
  taken_in_order := by
    simpa [Ledger.clear] using (List.sublist_append_left l.taken l.waiting).trans h.taken_in_order
  visited_in_order := h.visited_in_order
  unvisited := h.unvisited
  due := h.due
  calls_visited := h.calls_visited
  own_calls := h.own_calls
  counted_once := h.counted_once
  counted_visited := h.counted_visited

theorem start (h : l.Balanced) : l.start.Balanced where
  numbered := h.numbered
  conserved := h.conserved
  taken_in_order := h.taken_in_order
  visited_in_order := h.visited_in_order
  unvisited := by
    intro task htask hrest
    rcases List.mem_cons.mp htask with rfl | hold
    · exact absurd rfl hrest
    · exact h.unvisited task hold hrest
  due := h.due
  calls_visited := h.calls_visited
  own_calls := by
    intro task htask call hcall
    rcases List.mem_cons.mp htask with rfl | hold
    · cases hcall
    · exact h.own_calls task hold call hcall
  counted_once := h.counted_once
  counted_visited := h.counted_visited

theorem take (h : l.Balanced) : l.take.Balanced := by
  unfold Ledger.take
  split
  · rename_i batch waiting visited below hwaiting htasks
    have hbatch : batch ∈ l.issued := h.taken_in_order.subset (by simp [hwaiting])
    -- what waits in the queue has not been read
    have hunread : ∀ ticket ∈ batch, ticket ∉ l.visited := by
      intro ticket hticket hvisited
      have hnodup := h.nodup_accounts
      simp only [accounts, hwaiting, List.append_assoc] at hnodup
      exact List.disjoint_of_nodup_append hnodup hvisited (by simp [hticket])
    exact {
      numbered := h.numbered
      conserved := by
        refine h.conserved_of_count rfl fun ticket => ?_
        simp only [accounts, Ledger.visited, hwaiting, htasks, List.flatten_cons, List.flatMap_cons,
          List.nil_append, List.count_append]
        omega
      taken_in_order := by simpa [hwaiting] using h.taken_in_order
      visited_in_order := h.visited_in_order
      unvisited := by
        intro task htask hrest
        rcases List.mem_cons.mp htask with rfl | hbelow
        · have hnone : l.visitedOf batch = [] := visitedOf_eq_nil hunread
          exact ⟨batch, by simp, congrArg (· ++ batch) hnone⟩
        · obtain ⟨other, hother, heq⟩ := h.unvisited task (by simp [htasks, hbelow]) hrest
          exact ⟨other, List.mem_append_left _ hother, heq⟩
      due := by simpa [calls, htasks] using h.due
      calls_visited := by simpa [calls, htasks, Ledger.visited] using h.calls_visited
      own_calls := by
        intro task htask call hcall
        rcases List.mem_cons.mp htask with rfl | hbelow
        · cases hcall
        · exact h.own_calls task (by simp [htasks, hbelow]) call hcall
      counted_once := by simpa [counted, htasks] using h.counted_once
      counted_visited := by simpa [counted, htasks, Ledger.visited] using h.counted_visited }
  · exact h

end Balanced

section visit

variable {rest visited : List Ticket} {below : List Task} {text : Option Text}
  {listeners : List Listener}

@[simp]
theorem issued_visit : (l.visit text listeners).issued = l.issued := by
  unfold visit
  split <;> rfl

@[simp]
theorem waiting_visit : (l.visit text listeners).waiting = l.waiting := by
  unfold visit
  split <;> rfl

@[simp]
theorem taken_visit : (l.visit text listeners).taken = l.taken := by
  unfold visit
  split <;> rfl

variable (htasks : l.tasks = ⟨[], ticket :: rest, visited⟩ :: below)
include htasks

theorem tasks_visit : (l.visit text listeners).tasks =
    ⟨(Visit.mk ticket text listeners).due.map (Prod.mk ticket), rest, visited ++ [ticket]⟩ ::
      below := by
  simp [visit, htasks]

theorem visits_visit : (l.visit text listeners).visits = l.visits ++ [⟨ticket, text, listeners⟩] := by
  simp [visit, htasks]

theorem visited_visit : (l.visit text listeners).visited = l.visited ++ [ticket] := by
  rw [Ledger.visited, visits_visit htasks, List.map_append]
  rfl

theorem visitedOf_visit : (l.visit text listeners).visitedOf batch =
    l.visitedOf batch ++ if ticket ∈ batch then [ticket] else [] := by
  rw [visitedOf, visited_visit htasks, List.filter_append]
  by_cases hmem : ticket ∈ batch <;> simp [visitedOf, hmem]

theorem count_accounts_visit (other : Ticket) :
    (l.visit text listeners).accounts.count other = l.accounts.count other := by
  simp only [accounts, Ledger.visited, visit, htasks, List.flatMap_cons, List.map_append,
    List.map_cons, List.map_nil, List.count_append, List.count_cons, List.count_nil]
  omega

theorem counted_visit : (l.visit text listeners).counted.Perm (ticket :: l.counted) := by
  rw [List.perm_iff_count]
  intro other
  simp only [counted, visit, htasks, List.flatMap_cons, List.count_append, List.count_cons,
    List.count_nil]
  omega

theorem calls_before_visit : l.calls = l.told ++ below.flatMap Task.calls ++ l.skipped := by
  simp [calls, htasks]

theorem calls_visit : (l.visit text listeners).calls =
    l.told ++ ((Visit.mk ticket text listeners).due.map (Prod.mk ticket) ++
      below.flatMap Task.calls) ++ l.skipped := by
  simp [calls, visit, htasks]

theorem mem_calls_visit {call : Ticket × Notice} (h : call ∈ (l.visit text listeners).calls) :
    call ∈ l.calls ∨ call.1 = ticket := by
  rw [calls_visit htasks] at h
  rw [calls_before_visit htasks]
  by_cases hdue : call ∈ (Visit.mk ticket text listeners).due.map (Prod.mk ticket)
  · obtain ⟨notice, _, rfl⟩ := List.mem_map.mp hdue
    exact Or.inr rfl
  · left
    simpa only [List.mem_append, hdue, false_or] using h

end visit

namespace Balanced

variable {rest visited : List Ticket} {below : List Task} {text : Option Text}
  {listeners : List Listener}

/-- What a refresh is to read next is not among what was read, nor does another refresh have it to
read. -/
theorem unread_of_rest (h : l.Balanced) {task : Task} (htasks : l.tasks = task :: below)
    (hticket : ticket ∈ task.rest) : ticket ∉ l.visited ∧ ticket ∉ below.flatMap Task.rest := by
  have hnodup := h.nodup_accounts
  simp only [accounts, htasks, List.flatMap_cons, List.append_assoc] at hnodup
  constructor
  · intro hvisited
    exact List.disjoint_of_nodup_append hnodup hvisited (by simp [hticket])
  · intro hbelow
    have hrests := hnodup.of_append_right.of_append_right
    exact List.disjoint_of_nodup_append hrests hticket (List.mem_append_left _ hbelow)

/-- Reading a cell goes on with the batch that the refresh has taken, and with no other batch. -/
theorem exists_batch_visit (h : l.Balanced)
    (htasks : l.tasks = ⟨[], ticket :: rest, visited⟩ :: below) :
    ∃ batch ∈ l.taken, (l.visit text listeners).visitedOf batch ++ rest = batch ∧
      ∀ other ∈ l.issued, other ≠ batch →
        (l.visit text listeners).visitedOf other = l.visitedOf other := by
  have htop : ⟨[], ticket :: rest, visited⟩ ∈ l.tasks := by simp [htasks]
  obtain ⟨batch, hbatch, hrest⟩ := h.unvisited _ htop (by simp)
  have hmem : ticket ∈ batch := by
    rw [← hrest]
    simp
  refine ⟨batch, hbatch, ?_, ?_⟩
  · rw [visitedOf_visit htasks, if_pos hmem, List.append_assoc]
    exact hrest
  · intro other hother hne
    have hnot : ticket ∉ other := fun hin =>
      hne (h.eq_of_mem hother (h.mem_issued_of_taken hbatch) hin hmem)
    rw [visitedOf_visit htasks, if_neg hnot, List.append_nil]

/-- The batches of the other refreshes are other batches than the one that is read from. -/
theorem not_mem_of_below (h : l.Balanced)
    (htasks : l.tasks = ⟨[], ticket :: rest, visited⟩ :: below) {task : Task} (htask : task ∈ below)
    (hbatch : l.visitedOf batch ++ task.rest = batch) : ticket ∉ batch := by
  obtain ⟨hunread, hunshared⟩ := h.unread_of_rest htasks List.mem_cons_self
  rw [← hbatch, List.mem_append, not_or]
  constructor
  · exact fun hvisited => hunread (List.mem_of_mem_filter hvisited)
  · exact fun hrest => hunshared (List.mem_flatMap.mpr ⟨task, htask, hrest⟩)

theorem callsOf_visit (h : l.Balanced)
    (htasks : l.tasks = ⟨[], ticket :: rest, visited⟩ :: below) (other : Ticket) :
    callsOf other (l.visit text listeners).calls =
      if other = ticket then (Visit.mk ticket text listeners).due else callsOf other l.calls := by
  have hnone : callsOf ticket l.calls = [] := by
    apply callsOf_eq_nil
    rintro call hcall rfl
    exact (h.unread_of_rest htasks List.mem_cons_self).1 (h.calls_visited call hcall)
  rw [calls_before_visit htasks, callsOf_append, callsOf_append] at hnone
  simp only [List.append_eq_nil_iff] at hnone
  rw [calls_visit htasks, callsOf_append, callsOf_append, callsOf_append, callsOf_due,
    calls_before_visit htasks, callsOf_append, callsOf_append]
  by_cases heq : other = ticket
  · subst heq
    simp [hnone]
  · simp [heq]

theorem visit_of_tasks (h : l.Balanced)
    (htasks : l.tasks = ⟨[], ticket :: rest, visited⟩ :: below) :
    (l.visit text listeners).Balanced := by
  have hbelow : below ⊆ l.tasks := by simp [htasks]
  have hunread := (h.unread_of_rest htasks List.mem_cons_self).1
  have hgoes : ∃ batch ∈ l.taken, (l.visit text listeners).visitedOf batch ++ rest = batch ∧
      ∀ other ∈ l.issued, other ≠ batch →
        (l.visit text listeners).visitedOf other = l.visitedOf other := h.exists_batch_visit htasks
  obtain ⟨batch, hbatch, hrest, hothers⟩ := hgoes
  exact {
    numbered := by
      rw [issued_visit]
      exact h.numbered
    conserved := h.conserved_of_count issued_visit (count_accounts_visit htasks)
    taken_in_order := by
      rw [issued_visit, taken_visit, waiting_visit]
      exact h.taken_in_order
    visited_in_order := by
      rw [issued_visit]
      intro other hother
      by_cases heq : other = batch
      · subst heq
        exact ⟨rest, hrest⟩
      · rw [hothers other hother heq]
        exact h.visited_in_order other hother
    unvisited := by
      rw [tasks_visit htasks, taken_visit]
      intro task htask hleft
      rcases List.mem_cons.mp htask with rfl | hold
      · exact ⟨batch, hbatch, hrest⟩
      · obtain ⟨other, hother, heq⟩ := h.unvisited task (hbelow hold) hleft
        refine ⟨other, hother, ?_⟩
        rw [visitedOf_visit htasks, if_neg (h.not_mem_of_below htasks hold heq), List.append_nil]
        exact heq
    due := by
      rw [visits_visit htasks]
      intro visit hvisit
      rw [h.callsOf_visit htasks]
      rcases List.mem_append.mp hvisit with hold | hnew
      · have hne : visit.ticket ≠ ticket := by
          rintro rfl
          exact hunread (List.mem_map_of_mem hold)
        rw [if_neg hne]
        exact h.due visit hold
      · obtain rfl := List.mem_singleton.mp hnew
        rw [if_pos rfl]
    calls_visited := by
      rw [visited_visit htasks]
      intro call hcall
      rcases mem_calls_visit htasks hcall with hold | hnew
      · exact List.mem_append_left _ (h.calls_visited call hold)
      · simp [hnew]
    own_calls := by
      rw [tasks_visit htasks]
      intro task htask call hcall
      rcases List.mem_cons.mp htask with rfl | hold
      · obtain ⟨notice, _, rfl⟩ := List.mem_map.mp hcall
        simp
      · exact h.own_calls task (hbelow hold) call hcall
    counted_once := by
      rw [(counted_visit htasks).nodup_iff, List.nodup_cons]
      exact ⟨fun hcounted => hunread (h.counted_visited hcounted), h.counted_once⟩
    counted_visited := by
      rw [visited_visit htasks]
      intro other hother
      rcases List.mem_cons.mp ((counted_visit htasks).mem_iff.mp hother) with rfl | hold
      · simp
      · exact List.mem_append_left _ (h.counted_visited hold) }

theorem visit (h : l.Balanced) (text : Option Text) (listeners : List Listener) :
    (l.visit text listeners).Balanced := by
  have hcases : (∃ ticket rest visited below, l.tasks = ⟨[], ticket :: rest, visited⟩ :: below) ∨
      l.visit text listeners = l := by
    unfold Ledger.visit
    split
    · rename_i htasks
      exact Or.inl ⟨_, _, _, _, htasks⟩
    · exact Or.inr rfl
  rcases hcases with ⟨ticket, rest, visited, below, htasks⟩ | hsame
  · exact h.visit_of_tasks htasks
  · rw [hsame]
    exact h

theorem tell (h : l.Balanced) : l.tell.Balanced := by
  unfold Ledger.tell
  split
  · rename_i call later rest visited below htasks
    have htop : ⟨call :: later, rest, visited⟩ ∈ l.tasks := by simp [htasks]
    have hbelow : below ⊆ l.tasks := by simp [htasks]
    -- the call passes from the calls still to be made to those made and keeps its place
    have hcalls : calls { l with
        told := l.told ++ [call], tasks := ⟨later, rest, visited⟩ :: below } = l.calls := by
      simp [calls, htasks]
    exact {
      numbered := h.numbered
      conserved := by simpa [accounts, htasks, Ledger.visited] using h.conserved
      taken_in_order := h.taken_in_order
      visited_in_order := h.visited_in_order
      unvisited := by
        intro task htask hrest
        rcases List.mem_cons.mp htask with rfl | hmem
        · exact h.unvisited ⟨call :: later, rest, visited⟩ htop hrest
        · exact h.unvisited task (hbelow hmem) hrest
      due := by
        rw [hcalls]
        exact h.due
      calls_visited := by
        rw [hcalls]
        exact h.calls_visited
      own_calls := by
        intro task htask other hother
        rcases List.mem_cons.mp htask with rfl | hmem
        · exact h.own_calls _ htop other (List.mem_cons_of_mem call hother)
        · exact h.own_calls task (hbelow hmem) other hother
      counted_once := by simpa [counted, htasks] using h.counted_once
      counted_visited := by simpa [counted, htasks, Ledger.visited] using h.counted_visited }
  · exact h

theorem finish (h : l.Balanced) : l.finish.Balanced := by
  unfold Ledger.finish
  split
  · rename_i visited below htasks
    have hbelow : below ⊆ l.tasks := by simp [htasks]
    have hcounted : (counted { l with tasks := below, returned := visited :: l.returned }).Perm
        l.counted := by
      simp only [counted, htasks, List.flatten_cons, List.flatMap_cons, ← List.append_assoc]
      exact List.perm_append_comm.append_right _
    exact {
      numbered := h.numbered
      conserved := by simpa [accounts, htasks, Ledger.visited] using h.conserved
      taken_in_order := h.taken_in_order
      visited_in_order := h.visited_in_order
      unvisited := fun task htask => h.unvisited task (hbelow htask)
      due := by simpa [calls, htasks] using h.due
      calls_visited := by simpa [calls, htasks, Ledger.visited] using h.calls_visited
      own_calls := fun task htask => h.own_calls task (hbelow htask)
      counted_once := hcounted.nodup_iff.mpr h.counted_once
      counted_visited := fun _ hmem => h.counted_visited (hcounted.subset hmem) }
  · exact h

/-- Two refreshes in progress have no calls to make for the same ticket. -/
theorem callsOf_top_or_below (h : l.Balanced) {task : Task} {below : List Task}
    (htasks : l.tasks = task :: below) (ticket : Ticket) :
    callsOf ticket task.calls = [] ∨ callsOf ticket (below.flatMap Task.calls) = [] := by
  have hnodup : (task.visited ++ below.flatMap Task.visited).Nodup := by
    have honce := h.counted_once
    rw [counted, htasks, List.flatMap_cons] at honce
    exact honce.of_append_right
  by_cases hown : ticket ∈ task.visited
  · right
    apply callsOf_eq_nil
    intro call hcall heq
    obtain ⟨other, hother, hcall⟩ := List.mem_flatMap.mp hcall
    have hvisited := h.own_calls other (by simp [htasks, hother]) call hcall
    rw [heq] at hvisited
    exact List.disjoint_of_nodup_append hnodup hown (List.mem_flatMap.mpr ⟨other, hother, hvisited⟩)
  · left
    apply callsOf_eq_nil
    intro call hcall heq
    exact hown (heq ▸ h.own_calls task (by simp [htasks]) call hcall)

theorem interrupt (h : l.Balanced) : l.interrupt.Balanced := by
  unfold Ledger.interrupt
  split
  · exact h
  · rename_i task below htasks
    let l' : Ledger := { l with
      tasks := below, lost := l.lost ++ task.rest, skipped := task.calls ++ l.skipped }
    have hbelow : below ⊆ l.tasks := by simp [htasks]
    have hcounted : l'.counted.Sublist l.counted := by
      simp only [l', counted, htasks, List.flatMap_cons]
      exact (List.sublist_append_right _ _).append_left _
    have hcalls (ticket : Ticket) : callsOf ticket l'.calls = callsOf ticket l.calls := by
      simp only [l', calls, htasks, List.flatMap_cons, callsOf_append]
      rcases h.callsOf_top_or_below htasks ticket with hnone | hnone <;> simp [hnone]
    exact {
      numbered := h.numbered
      conserved := by
        refine h.conserved_of_count rfl fun ticket => ?_
        simp only [accounts, Ledger.visited, htasks, List.flatMap_cons, List.count_append]
        omega
      taken_in_order := h.taken_in_order
      visited_in_order := h.visited_in_order
      unvisited := fun task htask => h.unvisited task (hbelow htask)
      due := fun visit hvisit => (hcalls visit.ticket).trans (h.due visit hvisit)
      calls_visited := by
        intro call hcall
        apply h.calls_visited call
        simp only [calls, htasks, List.flatMap_cons, List.mem_append] at hcall ⊢
        tauto
      own_calls := fun task htask => h.own_calls task (hbelow htask)
      counted_once := h.counted_once.sublist hcounted
      counted_visited := fun _ hmem => h.counted_visited (hcounted.subset hmem) }

theorem interruptAll (h : l.Balanced) : l.interruptAll.Balanced := by
  unfold Ledger.interruptAll
  generalize l.tasks.length = n
  induction n generalizing l with
  | zero => exact h
  | succ n ih => exact ih h.interrupt

end Balanced

end FormulaGrid.Ledger
