import Mathlib.Tactic

/-! The order of byte strings: `memcmp` over the common length, then the lengths. -/

namespace OpenGauss.Lib

/-- `memcmp` over the common length. -/
def memcmp : List UInt8 → List UInt8 → Ordering
  | [], _ => .eq
  | _, [] => .eq
  | byte :: bytes, other :: others =>
    if byte < other then .lt else if other < byte then .gt else memcmp bytes others

/-- Smaller at the first difference, or a shorter part of the other one. -/
def bytesLess (bytes others : List UInt8) : Bool :=
  match memcmp bytes others with
  | .lt => true
  | .eq => bytes.length < others.length
  | .gt => false

@[simp] theorem memcmp_nil_left (others : List UInt8) : memcmp [] others = .eq := by
  cases others <;> rfl

@[simp] theorem memcmp_nil_right (bytes : List UInt8) : memcmp bytes [] = .eq := by
  cases bytes <;> rfl

variable (byte other : UInt8)

theorem memcmp_cons (bytes others : List UInt8) :
    memcmp (byte :: bytes) (other :: others) =
      if byte < other then .lt else if other < byte then .gt else memcmp bytes others := rfl

theorem memcmp_cons_self (byte : UInt8) (bytes others : List UInt8) :
    memcmp (byte :: bytes) (byte :: others) = memcmp bytes others := by
  rw [memcmp_cons, if_neg (UInt8.lt_irrefl byte), if_neg (UInt8.lt_irrefl byte)]

/-- Two heads: less, greater or the same. -/
theorem byte_cases : byte < other ∨ other < byte ∨ byte = other := by
  rcases Nat.lt_trichotomy byte.toNat other.toNat with less | same | greater
  · exact Or.inl less
  · exact Or.inr (Or.inr (UInt8.toNat_inj.mp same))
  · exact Or.inr (Or.inl greater)

theorem byte_lt_asymm {byte other : UInt8} (less : byte < other) : ¬ other < byte :=
  fun greater => Nat.lt_asymm (UInt8.lt_iff_toNat_lt.mp less) (UInt8.lt_iff_toNat_lt.mp greater)

@[simp] theorem bytesLess_nil_right (bytes : List UInt8) : bytesLess bytes [] = false := by
  simp [bytesLess]

@[simp] theorem bytesLess_nil_cons (other : UInt8) (others : List UInt8) :
    bytesLess [] (other :: others) = true := by
  simp [bytesLess]

theorem bytesLess_cons (bytes others : List UInt8) :
    bytesLess (byte :: bytes) (other :: others) =
      if byte < other then true else if other < byte then false else bytesLess bytes others := by
  unfold bytesLess
  rw [memcmp_cons]
  by_cases less : byte < other
  · rw [if_pos less, if_pos less]
  · rw [if_neg less, if_neg less]
    by_cases greater : other < byte
    · rw [if_pos greater, if_pos greater]
    · rw [if_neg greater, if_neg greater, List.length_cons, List.length_cons]
      cases memcmp bytes others with
      | lt => rfl
      | eq => simp
      | gt => rfl

theorem bytesLess_cons_self (byte : UInt8) (bytes others : List UInt8) :
    bytesLess (byte :: bytes) (byte :: others) = bytesLess bytes others := by
  rw [bytesLess_cons, if_neg (UInt8.lt_irrefl byte), if_neg (UInt8.lt_irrefl byte)]

def byteKey (bytes : List UInt8) : List Nat := bytes.map UInt8.toNat

variable {bytes others : List UInt8}

theorem bytesLess_iff : bytesLess bytes others = true ↔ byteKey bytes < byteKey others := by
  induction bytes generalizing others with
  | nil =>
    cases others with
    | nil => simp [byteKey]
    | cons other others => simp [byteKey]
  | cons byte bytes ih =>
    cases others with
    | nil => simp [byteKey]
    | cons other others =>
      have keys : byteKey (byte :: bytes) < byteKey (other :: others) ↔
          byte.toNat < other.toNat ∨ byte.toNat = other.toNat ∧ byteKey bytes < byteKey others :=
        List.cons_lt_cons_iff
      rw [keys]
      rcases byte_cases byte other with less | greater | rfl
      · rw [bytesLess_cons, if_pos less]
        exact iff_of_true rfl (Or.inl less)
      · rw [bytesLess_cons, if_neg (byte_lt_asymm greater), if_pos greater]
        have beyond : other.toNat < byte.toNat := greater
        exact iff_of_false (by decide) (by omega)
      · rw [bytesLess_cons_self, ih]
        simp

theorem not_bytesLess_iff : bytesLess bytes others = false ↔ byteKey others ≤ byteKey bytes := by
  rw [Bool.eq_false_iff, ne_eq, bytesLess_iff, not_lt]

/-- A string that is greater at the first difference is followed by greater ones only. -/
theorem memcmp_gt_of_le {low bytes others : List UInt8} (greater : memcmp low others = .gt)
    (above : bytesLess bytes low = false) : memcmp bytes others = .gt := by
  induction low generalizing bytes others with
  | nil => simp at greater
  | cons least low ih =>
    cases others with
    | nil => simp at greater
    | cons other others =>
      cases bytes with
      | nil => simp at above
      | cons byte bytes =>
        rw [memcmp_cons] at greater ⊢
        rw [bytesLess_cons] at above
        rcases byte_cases byte least with less | beyond | rfl
        · rw [if_pos less] at above
          exact absurd above (by decide)
        · have reached : other < byte := by
            by_contra notLess
            have order : least < other :=
              UInt8.lt_of_lt_of_le beyond (UInt8.not_lt.mp notLess)
            rw [if_pos order] at greater
            exact absurd greater (by decide)
          rw [if_neg (byte_lt_asymm reached), if_pos reached]
        · rw [if_neg (UInt8.lt_irrefl byte), if_neg (UInt8.lt_irrefl byte)] at above
          split at greater
          · exact absurd greater (by decide)
          · rename_i notLess
            rw [if_neg notLess]
            split at greater
            · rename_i here
              rw [if_pos here]
            · rename_i same
              rw [if_neg same]
              exact ih greater above

/-- Below a string that is smaller at the first difference there are smaller ones, and its own parts
that reach no difference. -/
theorem memcmp_lt_of_le {high bytes others : List UInt8} (less : memcmp high others = .lt)
    (below : bytesLess high bytes = false) :
    memcmp bytes others = .lt ∨ bytes <+: high ∧ bytes <+: others := by
  induction high generalizing bytes others with
  | nil => simp at less
  | cons greatest high ih =>
    cases others with
    | nil => simp at less
    | cons other others =>
      cases bytes with
      | nil => exact Or.inr ⟨List.nil_prefix, List.nil_prefix⟩
      | cons byte bytes =>
        rw [memcmp_cons] at less ⊢
        rw [bytesLess_cons] at below
        rcases byte_cases greatest byte with smaller | beyond | rfl
        · rw [if_pos smaller] at below
          exact absurd below (by decide)
        · left
          have reached : byte < other := by
            by_contra notLess
            have order : other < greatest :=
              UInt8.lt_of_le_of_lt (UInt8.not_lt.mp notLess) beyond
            rw [if_neg (byte_lt_asymm order), if_pos order] at less
            exact absurd less (by decide)
          rw [if_pos reached]
        · rw [if_neg (UInt8.lt_irrefl greatest), if_neg (UInt8.lt_irrefl greatest)] at below
          rcases byte_cases greatest other with smaller | greater | rfl
          · exact Or.inl (if_pos smaller)
          · rw [if_neg (byte_lt_asymm greater), if_pos greater] at less
            exact absurd less (by decide)
          · rw [if_neg (UInt8.lt_irrefl greatest), if_neg (UInt8.lt_irrefl greatest)] at less ⊢
            rcases ih less below with smaller | ⟨inHigh, inOthers⟩
            · exact Or.inl smaller
            · exact Or.inr ⟨List.prefix_cons_inj greatest |>.mpr inHigh,
                List.prefix_cons_inj greatest |>.mpr inOthers⟩

theorem memcmp_of_take {count : Nat} (differs : memcmp (bytes.take count) others ≠ .eq) :
    memcmp bytes others = memcmp (bytes.take count) others := by
  induction bytes generalizing count others with
  | nil => rw [List.take_nil]
  | cons byte bytes ih =>
    cases count with
    | zero => simp at differs
    | succ count =>
      cases others with
      | nil => simp at differs
      | cons other others =>
        rw [List.take_succ_cons, memcmp_cons] at differs ⊢
        rw [memcmp_cons]
        split
        · rfl
        · rename_i notLess
          rw [if_neg notLess] at differs
          split
          · rfl
          · rename_i notGreater
            rw [if_neg notGreater] at differs
            exact ih differs

theorem memcmp_of_prefix (part : bytes <+: others) : memcmp bytes others = .eq := by
  induction bytes generalizing others with
  | nil => exact memcmp_nil_left others
  | cons byte bytes ih =>
    obtain ⟨rest, rfl⟩ := part
    rw [List.cons_append, memcmp_cons_self]
    exact ih (List.prefix_append bytes rest)

theorem memcmp_of_prefix_right (part : others <+: bytes) : memcmp bytes others = .eq := by
  induction others generalizing bytes with
  | nil => exact memcmp_nil_right bytes
  | cons other others ih =>
    obtain ⟨rest, rfl⟩ := part
    rw [List.cons_append, memcmp_cons_self]
    exact ih (List.prefix_append others rest)

theorem memcmp_swap (bytes others : List UInt8) : (memcmp bytes others).swap = memcmp others bytes := by
  induction bytes generalizing others with
  | nil =>
    rw [memcmp_nil_left, memcmp_nil_right]
    rfl
  | cons byte bytes ih =>
    cases others with
    | nil => rfl
    | cons other others =>
      rcases byte_cases byte other with less | greater | rfl
      · rw [memcmp_cons, memcmp_cons, if_pos less, if_neg (byte_lt_asymm less), if_pos less]
        rfl
      · rw [memcmp_cons, memcmp_cons, if_neg (byte_lt_asymm greater), if_pos greater, if_pos greater]
        rfl
      · rw [memcmp_cons_self, memcmp_cons_self]
        exact ih others

/-- The first difference. -/
theorem memcmp_eq_gt_iff : memcmp bytes others = .gt ↔ ∃ common greater less,
    common ++ [greater] <+: bytes ∧ common ++ [less] <+: others ∧ less < greater := by
  constructor
  · intro above
    induction bytes generalizing others with
    | nil => simp at above
    | cons byte bytes ih =>
      cases others with
      | nil => simp at above
      | cons other others =>
        rcases byte_cases byte other with less | greater | rfl
        · rw [memcmp_cons, if_pos less] at above
          cases above
        · exact ⟨[], byte, other, by simp, by simp, greater⟩
        · rw [memcmp_cons_self] at above
          obtain ⟨common, greater, less, inside, inOther, order⟩ := ih above
          exact ⟨byte :: common, greater, less, (List.prefix_cons_inj byte).mpr inside,
            (List.prefix_cons_inj byte).mpr inOther, order⟩
  · rintro ⟨common, greater, less, ⟨rest, rfl⟩, ⟨behind, rfl⟩, order⟩
    induction common with
    | nil =>
      rw [List.nil_append, List.nil_append, List.singleton_append, List.singleton_append,
        memcmp_cons, if_neg (byte_lt_asymm order), if_pos order]
    | cons byte common ih =>
      rw [List.cons_append, List.cons_append, List.cons_append, List.cons_append, memcmp_cons_self]
      exact ih

end OpenGauss.Lib
