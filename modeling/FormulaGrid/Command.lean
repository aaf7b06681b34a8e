import FormulaGrid.CellKey
import FormulaGrid.Text
import FormulaGrid.Total

/-!
# Commands

What can be asked of a session, and the parties that it tells of refreshed cells. A named listener has
a script of commands. Whenever it is called it carries out what is left of its script, command by
command, so every command of a script is carried out once at most. The weight of a script counts all
the commands that can still come out of it.
-/
namespace FormulaGrid

inductive Listener where
  | named (name : String)
  | feed
  deriving DecidableEq, Repr

inductive Command where
  | edit (key : CellKey) (text : Text)
  | read (key : CellKey)
  | rawText (key : CellKey)
  | cached (key : CellKey)
  | dependencies (key : CellKey)
  | render (rows : List Int)
  | invalidate (key : CellKey)
  | fill (source target : CellKey)
  | refresh
  | pending
  | listen (listener : Listener) (script : List Command)
  | unlisten (listener : Listener)
  | clear

mutual

def Command.weight : Command → Nat
  | .listen _ script => 1 + scriptWeight script
  | _ => 1

def scriptWeight : List Command → Nat
  | [] => 0
  | command :: script => command.weight + scriptWeight script

end

/-- What named listeners have left of their scripts, in the order of the first use of each name. -/
abbrev Scripts := List (String × List Command)

namespace Scripts

def weight (scripts : Scripts) : Nat := total (fun entry => scriptWeight entry.2) scripts

/-- The first use of a name settles its script. -/
def declare (scripts : Scripts) (name : String) (script : List Command) : Scripts :=
  if scripts.any (·.1 = name) then scripts else scripts ++ [(name, script)]

/-- The next command of a name, if it has any left, and the scripts without it. -/
def takeCommand? (name : String) : Scripts → Option (Command × Scripts)
  | [] => none
  | entry :: scripts =>
    if entry.1 = name then
      match entry.2 with
      | [] => none
      | command :: script => some (command, (name, script) :: scripts)
    else (takeCommand? name scripts).map fun (command, others) => (command, entry :: others)

theorem weight_cons (entry : String × List Command) (scripts : Scripts) :
    weight (entry :: scripts) = scriptWeight entry.2 + weight scripts := by
  simp [weight]

theorem weight_declare (scripts : Scripts) (name : String) (script : List Command) :
    weight (scripts.declare name script) ≤ weight scripts + scriptWeight script := by
  unfold declare
  split
  · omega
  · simp [weight]

/-- Taking a command moves its weight out of the scripts. -/
theorem weight_takeCommand {name : String} {scripts others : Scripts} {command : Command}
    (h : takeCommand? name scripts = some (command, others)) :
    command.weight + others.weight = scripts.weight := by
  induction scripts generalizing others with
  | nil => simp [takeCommand?] at h
  | cons entry scripts ih =>
    unfold takeCommand? at h
    split at h
    · split at h
      · simp at h
      · rename_i script hentry
        simp only [Option.some.injEq, Prod.mk.injEq] at h
        obtain ⟨rfl, rfl⟩ := h
        simp only [weight_cons, hentry, scriptWeight]
        omega
    · obtain ⟨⟨command', others'⟩, htake, heq⟩ := Option.map_eq_some_iff.mp h
      simp only [Prod.mk.injEq] at heq
      obtain ⟨rfl, rfl⟩ := heq
      have := ih htake
      simp only [weight_cons]
      omega

end Scripts

end FormulaGrid
