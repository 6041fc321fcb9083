import ScriptVM.Instruction

/-!
Names and registers that were not given out before.

One counter serves all requests for names, so a number appears in at most one of them. Registers are
never handed out twice, and the one that carries results is not handed out at all.
-/
namespace ScriptVM

/-- A supply of numbers for names. -/
structure FreshNames where
  next : Nat := 0
deriving DecidableEq, Repr, Inhabited

namespace FreshNames

/-- Takes the next number. -/
def take (names : FreshNames) : Nat × FreshNames :=
  (names.next, ⟨names.next + 1⟩)

/-- The name that the n-th request gives to something without a name. -/
def anonymousName (kind : String) (n : Nat) : String :=
  kind ++ "_anon_" ++ toString n

/-- The name that the n-th request makes of a base. -/
def uniqueName (base : String) (n : Nat) : String :=
  base ++ "_" ++ toString n

/-- Names something that has no name. -/
def anonymous (names : FreshNames) (kind : String) : String × FreshNames :=
  (anonymousName kind names.next, names.take.2)

/-- Makes a base unique. -/
def unique (names : FreshNames) (base : String) : String × FreshNames :=
  (uniqueName base names.next, names.take.2)

end FreshNames

/-- The registers that have not been handed out are those from `next` on. -/
structure RegisterSupply where
  next : Nat := resultReg + 1
deriving DecidableEq, Repr, Inhabited

namespace RegisterSupply

/-- Hands out the next register. -/
def take (supply : RegisterSupply) : Nat × RegisterSupply :=
  (supply.next, ⟨supply.next + 1⟩)

/-- The registers handed out since `mark` was the next one. -/
def since (supply : RegisterSupply) (mark : Nat) : List Nat :=
  List.range' mark (supply.next - mark)

end RegisterSupply

/-- A private bank: each of its slots gets a register the first time it is asked for, and keeps
it. -/
structure RegisterBank where
  slots : List (Nat × Nat) := []
deriving DecidableEq, Repr, Inhabited

/-- The register of a slot. -/
def RegisterBank.get (bank : RegisterBank) (supply : RegisterSupply) (slot : Nat) :
    Nat × RegisterBank × RegisterSupply :=
  match bank.slots.lookup slot with
  | some reg => (reg, bank, supply)
  | none =>
    let (reg, supply) := supply.take
    (reg, ⟨(slot, reg) :: bank.slots⟩, supply)

end ScriptVM
