import FormulaGrid.EventLoop
import FormulaGrid.EventText
import FormulaGrid.Request
import FormulaGrid.Route
import FormulaGrid.Settings

/-!
# The grid service

Requests on a sheet of a set size: its description, a window of rows, single cells, edits, fills and
refreshes. The service runs in an event loop that comes to rest after every step, and sends each
refreshed cell to the event clients connected at the time.
-/
namespace FormulaGrid

structure CellView where
  key : CellKey
  ref : Text
  raw : Text
  text : Text
  isFormula : Bool
  dependencies : List Text
  deriving DecidableEq, Repr

structure RowView where
  row : Int
  cells : List CellView
  deriving DecidableEq, Repr

structure RowBatch where
  offset : Int
  rows : List RowView
  hasMore : Bool
  nextOffset : Int
  deriving DecidableEq, Repr

inductive Reply where
  | grid (settings : Settings) (labels : List Text)
  | rows (batch : RowBatch)
  | cell (view : CellView)
  | filled (refs : List Text) (isFormula : Bool)
  | refreshed (count : Nat)
  | refused (status : Nat) (detail : Text)
  | faulty (places : List Place)
  /-- the path is to be asked for without the slashes at its end -/
  | moved
  deriving DecidableEq, Repr

namespace Reply

def refuse (status : Nat) (detail : String) : Reply := .refused status detail.toList

def circular : Reply := refuse 409 "Circular reference"

def outOfRange (key : CellKey) : Reply :=
  .refused 404 ("Cell out of range: row=".toList ++ IntegerText.written key.row ++
    ", col=".toList ++ IntegerText.written key.col)

end Reply

/-- What clients do: they send requests, and come and go as listeners to events. -/
inductive ClientStep where
  | request (r : Request)
  | connect (name : String)
  | disconnect (name : String)

inductive StepAnswer where
  | reply (r : Reply)
  | connected
  | remaining (clients : Nat)
  deriving DecidableEq, Repr

structure Service where
  settings : Settings
  session : Session Sheet
  clients : List String

namespace Service

def maxBatch : Int := 500

/-- The view of a cell whose text has been read. -/
def view (sheet : Sheet) (key : CellKey) (text : Text) : Except Fault CellView := do
  let raw := sheet.rawText key
  let ref ← key.toReference
  let dependencies ← (sheet.dependencies key).mapM CellKey.toReference
  return ⟨key, ref, raw, text, raw.isFormula, dependencies⟩

def onSheet (s : Service) (sheet : Sheet) : Service :=
  { s with session := { s.session with store := sheet } }

def sheet (s : Service) : Sheet := s.session.store

def gridReply (settings : Settings) : Reply :=
  .grid settings ((List.range settings.columns.toNat).map fun (col : Nat) =>
    Reference.columnLabel col)

/-- A reply, or a fault that no request is prepared for, and the service that is left in either case. -/
abbrev Handled := Except Fault Reply × Service

/-- Reads a cell and shows it. -/
def cellReply (s : Service) (key : CellKey) : Handled :=
  match s.sheet.read key with
  | (.error fault, sheet) => (.error fault, s.onSheet sheet)
  | (.ok text, sheet) => ((view sheet key text).map .cell, s.onSheet sheet)

def getCell (s : Service) (key : CellKey) : Handled :=
  if s.settings.contains key then s.cellReply key else (.ok (.outOfRange key), s)

/-- The integers after the first up to the last. -/
def rowIds (offset last : Int) : List Int :=
  (List.range (last - offset).toNat).map fun (i : Nat) => offset + 1 + i

def rowView (sheet : Sheet) (row : Int) (texts : List Text) : Except Fault RowView := do
  let cells ← (texts.zipIdx).mapM fun (text, col) => view sheet ⟨row, col⟩ text
  return ⟨row, cells⟩

def rowViews (sheet : Sheet) (ids : List Int) (table : List (List Text)) :
    Except Fault (List RowView) :=
  (ids.zip table).mapM fun (row, texts) => rowView sheet row texts

/-- Renders the whole window before it looks at the cells again. -/
def rowsReply (s : Service) (offset limit : Int) : Handled :=
  let last := min (offset + limit) s.settings.rows
  let ids := rowIds offset last
  match CellStore.renderRows s.sheet ids with
  | (.error fault, sheet) => (.error fault, s.onSheet sheet)
  | (.ok table, sheet) =>
    ((rowViews sheet ids table).map fun rows =>
      .rows ⟨offset, rows, decide (last < s.settings.rows), max last offset⟩, s.onSheet sheet)

def getRows (s : Service) (offset : Int) (limit : Option Int) : Handled :=
  let limit := limit.getD s.settings.batch
  if offset < 0 ∨ limit < 1 then (.ok (.refuse 400 "offset must be >= 0 and limit >= 1"), s)
  else if maxBatch < limit then (.ok (.refuse 400 "limit exceeds 500 rows"), s)
  else s.rowsReply offset limit

/-- The text of an edit that goes round a cycle of readers is stored all the same. -/
def editReply (s : Service) (key : CellKey) (text : Text) : Handled :=
  match s.sheet.edit key text with
  | (.error .circular, sheet) => (.ok .circular, s.onSheet sheet)
  | (.error fault, sheet) => (.error fault, s.onSheet sheet)
  | (.ok _, sheet) => (s.onSheet sheet).cellReply key

def putCell (s : Service) (key : CellKey) (text : Text) : Handled :=
  if s.settings.contains key then s.editReply key text else (.ok (.outOfRange key), s)

def filledReply (sheet : Sheet) (source : CellKey) (keys : List CellKey) : Except Fault Reply := do
  let refs ← keys.mapM CellKey.toReference
  return .filled refs (sheet.rawText source).isFormula

def fillReply (s : Service) (source target : CellKey) : Handled :=
  match s.session.fill source target with
  | (.error .circular, session) => (.ok .circular, { s with session := session })
  | (.error fault, session) => (.error fault, { s with session := session })
  | (.ok keys, session) => (filledReply session.store source keys, { s with session := session })

def postFill (s : Service) (source target : CellKey) : Handled :=
  if !s.settings.contains source then (.ok (.outOfRange source), s)
  else if !s.settings.contains target then (.ok (.outOfRange target), s)
  else s.fillReply source target

def postRefresh (s : Service) : Handled :=
  let (count, session) := s.session.refresh
  (count.map .refreshed, { s with session := session })

/-- Answers with the places of what is faulty. The answer also shows what was sent there, so all of
that has to be writable. -/
def refuseFlaws (s : Service) (flaws : List Flaw) : Handled :=
  if flaws.all fun flaw => flaw.shown.isWritable then (.ok (.faulty (flaws.map Flaw.place)), s)
  else (.error .numberNotFinite, s)

/-- Goes on with a value, or answers with what is faulty. -/
def withChecked {α : Type} (s : Service) (x : Checked α) (go : α → Handled) : Handled :=
  match x with
  | .ok a => go a
  | .error flaws => s.refuseFlaws flaws

def answer (s : Service) (r : Request) : Route → Handled
  | .grid => (.ok (gridReply s.settings), s)
  | .rows => s.withChecked r.window fun (offset, limit) => s.getRows offset limit
  | .cell row col => s.withChecked (Request.pathKey row col) s.getCell
  | .edit => s.withChecked r.editedCell fun (key, text) => s.putCell key text
  | .fill => s.withChecked r.filledCells fun (source, target) => s.postFill source target
  | .refresh => s.postRefresh
  | .events => (.ok (.refuse 404 "Not Found"), s)

/-- Carries out a request, without what it has scheduled. -/
def handle (s : Service) (r : Request) : Handled :=
  match Route.ofPath r.path with
  | none => (.ok (if Route.isMoved r.path then .moved else .refuse 404 "Not Found"), s)
  | some route =>
    if r.method = route.method then s.answer r route
    else (.ok (.refuse 405 "Method Not Allowed"), s)

/-- The notices for the event clients. -/
def feedNotices (events : List Event) : List Notice :=
  events.filterMap fun
    | .told notice => if notice.listener = .feed then some notice else none
    | .failed _ => none

/-- The event data that each client receives. -/
abbrev Deliveries := List (String × List Text)

/-- Lets the loop come to rest, and sends what has been refreshed to every client. -/
def settle (s : Service) : Deliveries × Service :=
  let (events, session) := s.session.idle.takeEvents
  let data := (feedNotices events).map fun notice => EventText.cell notice.key notice.text
  let sent := if data.isEmpty then [] else s.clients.map fun name => (name, data)
  (sent, { s with session := session })

def act (s : Service) : ClientStep → Except Fault StepAnswer × Service
  | .request r =>
    let (reply, s) := s.handle r
    (reply.map .reply, s)
  | .connect name => (.ok .connected, { s with clients := s.clients ++ [name] })
  | .disconnect name =>
    let clients := s.clients.erase name
    (.ok (.remaining clients.length), { s with clients := clients })

/-- Carries out a step and lets the loop come to rest after it, which it does after a fault as well. -/
def turn (s : Service) (c : ClientStep) : Except Fault StepAnswer × Deliveries × Service :=
  let (answer, s) := s.act c
  (answer, s.settle)

/-- A step of a run that ends with the first fault. -/
def step (s : Service) (c : ClientStep) : Except Fault (StepAnswer × Deliveries × Service) :=
  let (answer, settled) := s.turn c
  answer.map fun answer => (answer, settled)

/-- Takes over a session, whose refreshes it feeds to its clients from now on. -/
def start (settings : Settings) (session : Session Sheet) : Service :=
  ⟨settings, (session.listen .feed []).enterLoop, []⟩

/-- Ends the feed and refreshes what is still pending. -/
def stop (s : Service) : Except Fault (Session Sheet) :=
  match (s.session.unlisten .feed).refresh with
  | (.error fault, _) => .error fault
  | (.ok _, session) => .ok session.closeLoop

end Service

end FormulaGrid
