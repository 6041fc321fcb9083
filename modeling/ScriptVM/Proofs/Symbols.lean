import ScriptVM.Proofs.Memory

/-!
Texts in the heap.

A text takes one cell for the number of its characters and one for the code point of each, in order.
What is written for a text is read as that text, also after other calls, as long as none of them
stores to its cells and the top does not wrap around. Nothing but such cells is read as a text,
whoever wrote them: everything else is refused, at a cell no further than the first one that is not
handed out.
-/
namespace ScriptVM

/-- The cell at which a refusal arose. -/
def HeapError.address : HeapError → Nat
  | outOfRange address _ | uninitialised address | notACharacter address => address

namespace Heap

variable {heap : Heap} {address cell count : Nat} {text : String} {value : Value} {c : Char}
  {error : HeapError}

/-- A cell that is handed out holds the code point of a character. -/
def HoldsCharacter (heap : Heap) (cell : Nat) (c : Char) : Prop :=
  cell < heap.top ∧ ∃ code : Int64, heap.value? cell = some (.int code) ∧ code.toInt = c.toNat

/-- The cells from an address on hold a text, and all of them are handed out. -/
structure HoldsText (heap : Heap) (address : Nat) (text : String) : Prop where
  count : ∃ n : Int64, heap.value? address = some (.int n) ∧ n.toInt = text.length
  character : ∀ i c, text.toList[i]? = some c → heap.HoldsCharacter (address + 1 + i) c
  below : address + text.length < heap.top

/-- A number is the code point of some character. -/
def IsScalar (n : Int) : Prop :=
  0 ≤ n ∧ n.toNat.isValidChar

/-- What keeps the cells from an address on from being a text. -/
inductive Garbled (heap : Heap) (address : Nat) : Prop
  | outside (outside : heap.top ≤ address)
  | unwritten (blank : heap.value? address = none)
  /-- The first cell holds no number, or one below zero. -/
  | noCount (value : Value) (held : heap.value? address = some value)
      (noCount : ∀ n : Int64, value = .int n → n.toInt < 0)
  | overlong (n : Int64) (held : heap.value? address = some (.int n)) (counts : 0 ≤ n.toInt)
      (past : heap.top ≤ address + n.toInt.toNat)
  | gap (n : Int64) (i : Nat) (held : heap.value? address = some (.int n)) (inside : i < n.toInt)
      (blank : heap.value? (address + 1 + i) = none)
  /-- A later cell holds no number, or one that is no code point. -/
  | noCharacter (n : Int64) (i : Nat) (value : Value) (held : heap.value? address = some (.int n))
      (inside : i < n.toInt) (held' : heap.value? (address + 1 + i) = some value)
      (noCode : ∀ code : Int64, value = .int code → ¬ IsScalar code.toInt)

section Cells

theorem load_of_value? (inside : cell < heap.top) (held : heap.value? cell = some value) :
    heap.load cell = .ok value := by
  simp only [load, check, if_pos inside, held]
  rfl

theorem load_of_blank (blank : cell < heap.top → heap.value? cell = none) :
    ∃ e, heap.load cell = .error e ∧ e.address = cell := by
  by_cases inside : cell < heap.top
  · exact ⟨.uninitialised cell, by simp only [load, check, if_pos inside, blank inside]; rfl, rfl⟩
  · exact ⟨.outOfRange cell heap.top, by simp only [load, check, if_neg inside]; rfl, rfl⟩

/-- A value is read as a character if it is the character's code point. -/
theorem character?_eq_some_iff :
    character? value = some c ↔ ∃ code : Int64, value = .int code ∧ code.toInt = c.toNat := by
  constructor
  · intro read
    cases value with
    | int code =>
      rw [character?, Option.dite_none_right_eq_some] at read
      obtain ⟨⟨valid, positive⟩, same⟩ := read
      cases same
      exact ⟨code, rfl, (Int.toNat_of_nonneg positive).symm⟩
    | null | real => cases read
  · rintro ⟨code, rfl, same⟩
    have natural : code.toInt.toNat = c.toNat := by rw [same, Int.toNat_natCast]
    have valid : code.toInt.toNat.isValidChar := natural ▸ c.valid
    rw [character?, dif_pos ⟨valid, by omega⟩]
    congr 1
    apply Char.ext
    apply UInt32.toNat_inj.mp
    exact natural

theorem character?_eq_none_iff :
    character? value = none ↔ ∀ code : Int64, value = .int code → ¬ IsScalar code.toInt := by
  cases value with
  | int code =>
    constructor
    · rintro none _ ⟨⟩ scalar
      rw [character?, dif_pos (And.symm scalar)] at none
      cases none
    · intro noCode
      rw [character?, dif_neg fun valid => noCode code rfl (And.symm valid)]
  | null | real => simp [character?]

end Cells

section Reading

variable {found : List Char}

theorem characters_succ_of_character (holds : heap.HoldsCharacter cell c) :
    heap.characters cell (count + 1) =
      (heap.characters (cell + 1) count).map (c :: ·) := by
  obtain ⟨inside, code, held, same⟩ := holds
  have isCharacter : character? (.int code) = some c := character?_eq_some_iff.mpr ⟨code, rfl, same⟩
  rw [characters, load_of_value? inside held]
  simp only [bind, Except.bind, isCharacter]
  cases heap.characters (cell + 1) count <;> rfl

/-- A cell without a character is refused. -/
theorem characters_succ_of_none (none : ∀ c, ¬ heap.HoldsCharacter cell c) (count : Nat) :
    ∃ e, heap.characters cell (count + 1) = .error e ∧ e.address = cell := by
  by_cases blank : cell < heap.top → heap.value? cell = Option.none
  · obtain ⟨e, refused, same⟩ := load_of_blank blank
    exact ⟨e, by rw [characters, refused]; rfl, same⟩
  · rw [Classical.not_imp, ← ne_eq, Option.ne_none_iff_exists'] at blank
    obtain ⟨inside, value, held⟩ := blank
    have isNone : character? value = Option.none := by
      rw [Option.eq_none_iff_forall_ne_some]
      intro c isCharacter
      obtain ⟨code, rfl, same⟩ := character?_eq_some_iff.mp isCharacter
      exact none c ⟨inside, code, held, same⟩
    refine ⟨.notACharacter cell, ?_, rfl⟩
    rw [characters, load_of_value? inside held]
    simp only [bind, Except.bind, isNone]

/-- Cells are read as the characters that they hold, or refused at the first that holds none. -/
theorem characters_cases (heap : Heap) (cell count : Nat) :
    (∃ found : List Char, heap.characters cell count = .ok found ∧ found.length = count ∧
      ∀ i c, found[i]? = some c → heap.HoldsCharacter (cell + i) c) ∨
    ∃ i e, i < count ∧ (∀ j < i, ∃ c, heap.HoldsCharacter (cell + j) c) ∧
      (∀ c, ¬ heap.HoldsCharacter (cell + i) c) ∧ heap.characters cell count = .error e ∧
      e.address = cell + i := by
  induction count generalizing cell with
  | zero => exact .inl ⟨[], rfl, rfl, nofun⟩
  | succ count ih =>
    by_cases here : ∃ c, heap.HoldsCharacter cell c
    · obtain ⟨c, holds⟩ := here
      rw [characters_succ_of_character holds]
      rcases ih (cell + 1) with
        ⟨found, read, length, each⟩ | ⟨i, e, inside, before, none, read, same⟩
      · refine .inl ⟨c :: found, by rw [read]; rfl, by rw [List.length_cons, length], ?_⟩
        rintro (_ | i) other isHere
        · cases isHere
          exact holds
        · have later := each i other isHere
          rwa [Nat.add_assoc, Nat.add_comm 1] at later
      · refine .inr ⟨i + 1, e, by omega, ?_, ?_, by rw [read]; rfl, by omega⟩
        · rintro (_ | j) earlier
          · exact ⟨c, holds⟩
          · obtain ⟨c', holds'⟩ := before j (by omega)
            exact ⟨c', by rwa [Nat.add_assoc, Nat.add_comm 1] at holds'⟩
        · rwa [Nat.add_assoc, Nat.add_comm 1] at none
    · obtain ⟨e, refused, same⟩ := characters_succ_of_none (not_exists.mp here) count
      exact .inr ⟨0, e, by omega, nofun, not_exists.mp here, refused, same⟩

/-- What a first cell counts is read after it. -/
theorem symbol_of_count {n : Int64} (inside : address < heap.top)
    (held : heap.value? address = some (.int n)) (counts : 0 ≤ n.toInt) :
    heap.symbol address = (heap.characters (address + 1) n.toInt.toNat).map String.ofList := by
  rw [symbol, load_of_value? inside held]
  simp only [bind, Except.bind, if_pos counts]
  cases heap.characters (address + 1) n.toInt.toNat <;> rfl

/-- A cell without a character garbles what counts it. -/
theorem garbled_of_none {n : Int64} {i : Nat} (held : heap.value? address = some (.int n))
    (inside : i < n.toInt) (none : ∀ c, ¬ heap.HoldsCharacter (address + 1 + i) c) :
    heap.Garbled address := by
  by_cases handedOut : address + 1 + i < heap.top
  · cases held' : heap.value? (address + 1 + i) with
    | none => exact .gap n i held inside held'
    | some value =>
      refine .noCharacter n i value held inside held' (character?_eq_none_iff.mp ?_)
      rw [Option.eq_none_iff_forall_ne_some]
      intro c isCharacter
      obtain ⟨code, rfl, same⟩ := character?_eq_some_iff.mp isCharacter
      exact none c ⟨handedOut, code, held', same⟩
  · exact .overlong n held (by omega) (by omega)

/-- The cells at an address are read as the text that they hold, or are garbled and refused. -/
theorem symbol_cases (heap : Heap) (address : Nat) :
    (∃ text, heap.symbol address = .ok text ∧ heap.HoldsText address text) ∨
    heap.Garbled address ∧
      ∃ e, heap.symbol address = .error e ∧ e.address ≤ max address heap.top := by
  by_cases inside : address < heap.top
  case neg =>
    obtain ⟨e, refused, same⟩ := load_of_blank fun impossible => absurd impossible inside
    refine .inr ⟨.outside (Nat.le_of_not_lt inside), e, ?_, by omega⟩
    rw [symbol, refused]
    rfl
  cases held : heap.value? address with
  | none =>
    obtain ⟨e, refused, same⟩ := load_of_blank fun _ => held
    refine .inr ⟨.unwritten held, e, ?_, by omega⟩
    rw [symbol, refused]
    rfl
  | some value =>
    by_cases counts : ∃ n : Int64, value = .int n ∧ 0 ≤ n.toInt
    · obtain ⟨n, rfl, counts⟩ := counts
      rw [symbol_of_count inside held counts]
      rcases heap.characters_cases (address + 1) n.toInt.toNat with
        ⟨found, read, length, each⟩ | ⟨i, e, short, before, none, read, same⟩
      · have characters : ∀ i c, (String.ofList found).toList[i]? = some c →
            heap.HoldsCharacter (address + 1 + i) c := by
          rwa [String.toList_ofList]
        refine .inl ⟨String.ofList found, by rw [read]; rfl, ⟨n, held, ?_⟩, characters, ?_⟩
        · rw [String.length_ofList]
          omega
        · rw [String.length_ofList]
          cases last : found.getLast? with
          | none =>
            cases List.getLast?_eq_none_iff.mp last
            exact inside
          | some c =>
            rw [List.getLast?_eq_getElem?] at last
            have := (each _ c last).1
            have := (List.getElem?_eq_some_iff.mp last).1
            omega
      · refine .inr ⟨garbled_of_none held (by omega) none, e, by rw [read]; rfl, ?_⟩
        rcases i with _ | i
        · omega
        · obtain ⟨c, holds⟩ := before i (by omega)
          have := holds.1
          omega
    · have noCount : ∀ n : Int64, value = .int n → n.toInt < 0 :=
        fun n same => Int.not_le.mp fun natural => counts ⟨n, same, natural⟩
      refine .inr ⟨.noCount value held noCount, .notACharacter address, ?_, Nat.le_max_left ..⟩
      rw [symbol, load_of_value? inside held]
      cases value with
      | int n => exact if_neg (Int.not_le.mpr (noCount n rfl))
      | null | real => rfl

/-- Garbled cells hold no text. -/
theorem Garbled.not_holdsText (garbled : heap.Garbled address) : ¬ heap.HoldsText address text := by
  rintro ⟨⟨n, held, isLength⟩, character, below⟩
  have each : ∀ (n' : Int64) (i : Nat), heap.value? address = some (.int n') → i < n'.toInt →
      ∃ c, heap.HoldsCharacter (address + 1 + i) c := by
    intro n' i held' inside
    cases held.symm.trans held'
    have short : i < text.toList.length := by
      rw [String.length_toList]
      omega
    exact ⟨_, character i _ (List.getElem?_eq_getElem short)⟩
  cases garbled with
  | outside outside => omega
  | unwritten blank => cases held.symm.trans blank
  | noCount value held' noCount =>
    cases held.symm.trans held'
    have := noCount n rfl
    omega
  | overlong n' held' counts past =>
    cases held.symm.trans held'
    omega
  | gap n' i held' inside blank =>
    obtain ⟨c, _, code, heldCode, _⟩ := each n' i held' inside
    cases heldCode.symm.trans blank
  | noCharacter n' i value held' inside heldCode noCode =>
    obtain ⟨c, _, code, heldCode', same⟩ := each n' i held' inside
    cases heldCode.symm.trans heldCode'
    refine noCode code rfl ⟨by omega, ?_⟩
    rw [same, Int.toNat_natCast]
    exact c.valid

theorem HoldsCharacter.unique {c' : Char} (holds : heap.HoldsCharacter cell c)
    (holds' : heap.HoldsCharacter cell c') : c = c' := by
  obtain ⟨_, code, held, same⟩ := holds
  obtain ⟨_, code', held', same'⟩ := holds'
  cases held.symm.trans held'
  exact Char.toNat_inj.mp (by omega)

theorem HoldsText.unique {other : String} (holds : heap.HoldsText address text)
    (holds' : heap.HoldsText address other) : text = other := by
  obtain ⟨⟨n, held, isLength⟩, character, _⟩ := holds
  obtain ⟨⟨n', held', isLength'⟩, character', _⟩ := holds'
  cases held.symm.trans held'
  refine String.toList_inj.mp (List.ext_getElem (by simp only [String.length_toList]; omega) ?_)
  intro i inside inside'
  exact (character i _ (List.getElem?_eq_getElem inside)).unique
    (character' i _ (List.getElem?_eq_getElem inside'))

theorem symbol_eq_ok_iff : heap.symbol address = .ok text ↔ heap.HoldsText address text := by
  rcases heap.symbol_cases address with ⟨other, read, holds⟩ | ⟨garbled, e, refused, _⟩
  · rw [read, Except.ok.injEq]
    exact ⟨fun same => same ▸ holds, fun holds' => holds.unique holds'⟩
  · rw [refused]
    exact ⟨nofun, fun holds => absurd holds garbled.not_holdsText⟩

theorem garbled_iff : heap.Garbled address ↔
    ∃ e, heap.symbol address = .error e ∧ e.address ≤ max address heap.top := by
  rcases heap.symbol_cases address with ⟨other, read, holds⟩ | ⟨garbled, refused⟩
  · rw [read]
    exact ⟨fun garbled => absurd holds garbled.not_holdsText, nofun⟩
  · exact ⟨fun _ => refused, fun _ => garbled⟩

end Reading

section Keeping

variable {calls : List Call} {other : Nat} {values : List Value}

/-- The cell that a call stores to. -/
def Call.target? : Call → Option Nat
  | .store address _ => some address
  | _ => none

/-- A call leaves every cell that it does not store to. -/
theorem value?_call {call : Call} (small : heap.top + call.cells < wordLimit) (old : cell < heap.top)
    (spared : call.target? ≠ some cell) :
    (heap.call call).2.value? cell = heap.value? cell := by
  cases call with
  | allocate size => exact heap.value?_handOut _ cell
  | allocateSymbol text =>
    simp only [Heap.call, heap.allocateSymbol_of_lt small, Prod.map, id]
    rw [value?_fill _ (heap.room_for_symbol text), if_neg (by omega), value?_handOut]
  | store address value =>
    have apart : cell ≠ address := fun same => spared (congrArg some same.symm)
    rw [call_store, value?_put, if_neg fun both => apart both.1]
  | load | symbol => rfl

/-- None of some calls stores to the cells of a text. -/
def Spared (address length : Nat) (calls : List Call) : Prop :=
  ∀ call ∈ calls, ∀ cell, call.target? = some cell → cell < address ∨ address + length < cell

theorem HoldsText.of_eq {heap' : Heap} (holds : heap.HoldsText address text)
    (top : heap.top ≤ heap'.top)
    (same : ∀ cell, address ≤ cell → cell ≤ address + text.length →
      heap'.value? cell = heap.value? cell) : heap'.HoldsText address text := by
  obtain ⟨⟨n, held, isLength⟩, character, below⟩ := holds
  refine ⟨⟨n, by rw [same _ (Nat.le_refl _) (by omega), held], isLength⟩, ?_, by omega⟩
  intro i c isHere
  obtain ⟨handedOut, code, held, isCode⟩ := character i c isHere
  have inside := (List.getElem?_eq_some_iff.mp isHere).1
  rw [String.length_toList] at inside
  exact ⟨by omega, code, by rw [same _ (by omega) (by omega), held], isCode⟩

/-- A text stays where it is while nothing is stored to its cells and addresses do not run out. -/
theorem HoldsText.answers (holds : heap.HoldsText address text)
    (room : heap.top + Call.total calls < wordLimit) (spared : Spared address text.length calls) :
    (Call.answers Heap.call heap calls).2.HoldsText address text := by
  induction calls generalizing heap with
  | nil => exact holds
  | cons call rest ih =>
    obtain ⟨sparedFirst, sparedRest⟩ := List.forall_mem_cons.mp spared
    rw [Call.total] at room
    have small : heap.top + call.cells < wordLimit := by omega
    have top := top_call small
    have kept : (heap.call call).2.HoldsText address text := by
      refine holds.of_eq (by omega) fun cell lower upper => ?_
      refine value?_call small (by have := holds.below; omega) fun isTarget => ?_
      have := sparedFirst cell isTarget
      omega
    have roomRest : (heap.call call).2.top + Call.total rest < wordLimit := by rw [top]; omega
    exact ih kept roomRest sparedRest

/-- What is written for a text holds it, if there are addresses for its cells. -/
theorem holdsText_allocateSymbol (heap : Heap) (room : heap.top + (text.length + 1) ≤ 2 ^ 63) :
    (heap.allocateSymbol text).2.HoldsText heap.top text := by
  have limit := wordLimit_eq
  rw [allocateSymbol_of_lt _ (show heap.top + (text.length + 1) < wordLimit by omega)]
  dsimp only
  have written : ∀ i, i ≤ text.length →
      ((heap.handOut (heap.top + (text.length + 1))).fill heap.top (symbolCells text)).value?
        (heap.top + i) = (symbolCells text)[i]? := by
    intro i inside
    rw [value?_fill _ (heap.room_for_symbol text), if_pos (by rw [length_symbolCells]; omega),
      Nat.add_sub_cancel_left]
  refine ⟨⟨.ofNat text.length, ?_, ?_⟩, ?_, ?_⟩
  · have first := written 0 (Nat.zero_le _)
    rwa [Nat.add_zero] at first
  · exact Int64.toInt_ofNat_of_lt (by omega)
  · intro i c isHere
    have inside := (List.getElem?_eq_some_iff.mp isHere).1
    rw [String.length_toList] at inside
    refine ⟨by rw [top_fill, top_handOut]; omega, .ofNat c.toNat, ?_, ?_⟩
    · rw [Nat.add_assoc, Nat.add_comm 1, written _ (by omega)]
      simp [symbolCells, isHere]
    · have : c.toNat < 2 ^ 32 := c.val.toNat_lt
      exact Int64.toInt_ofNat_of_lt (by omega)
  · rw [top_fill, top_handOut]
    omega

end Keeping

/-- Calls that write a text and then hand out so many cells that the top wraps around to the bottom. -/
def wrappingAfterText : List Call :=
  [.allocateSymbol "a", .symbol 0, .allocate (wordLimit - 2), .symbol 0]

end Heap

end ScriptVM
