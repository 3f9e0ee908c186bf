import OpenGauss.PageCompress.NumstrCodec

namespace OpenGauss.PageCompress

open CStore (varsizeAny vardataAny varlena4B varattIs4BU strlen varhdrsz)

/-- What `PrefixLen` compares of a value. A type of fixed length (`none`) has nothing to compare. -/
def strData : Option AttLen → List UInt8 → List UInt8
  | some attlen, str => srcData attlen str
  | none, _ => []

def commonLen : List UInt8 → List UInt8 → Nat
  | first :: rest, other :: others => if first = other then commonLen rest others + 1 else 0
  | _, _ => 0

def prefixLen (attlen : Option AttLen) (str1 str2 : List UInt8) : Nat :=
  commonLen (strData attlen str1) (strData attlen str2)

/-- The loop for the final length, over the values behind `prev` that are not null. -/
def finalPrefixLen (attlen : Option AttLen) (prev : List UInt8) (len : Nat) : List (List UInt8) → Nat
  | [] => len
  | next :: rest =>
    let nextLen := prefixLen attlen prev next
    finalPrefixLen attlen next (if nextLen < len ∧ 0 < nextLen then nextLen else len) rest

/-- The prefix of a column, `none` where there is no first pair of values or it has nothing in
common. -/
def prefixGetCmprMeta (attlen : Option AttLen) (colArray : List (Option (List UInt8))) :
    Option (List UInt8) :=
  match colArray.reduceOption with
  | prev :: next :: rest =>
    let len := prefixLen attlen prev next
    if len = 0 then none
    else some ((strData attlen prev).take (finalPrefixLen attlen next len rest))
  | _ => none

/-- What is stored for the value, `none` where it does not begin with the prefix. The size of a C string
counts the terminator. -/
def prefixCompress (attlen : AttLen) (prefixStr val : List UInt8) : Option (List UInt8) :=
  let att := srcData attlen val ++ terminator attlen
  if att.length < prefixStr.length ∨ att.take prefixStr.length ≠ prefixStr then none
  else
    let suffix := att.drop prefixStr.length
    match attlen with
    | .varlena => some (compressedHeader .varlena suffix.length ++ suffix)
    | .cstring => some (suffix.take (strlen suffix + 1))

def prefixUncompress (attlen : AttLen) (prefixStr start : List UInt8)
    (uncmprValBuf : Option (Nat × Nat)) : Uncompressed :=
  let attdata := srcData attlen start
  let datum := uncompressedHeader attlen (prefixStr.length + attdata.length) ++
    (prefixStr ++ attdata) ++ terminator attlen
  { cmprValSize :=
      match attlen with
      | .varlena => varsizeAny start
      | .cstring => attdata.length + 1
    datum := datum
    dataLenWithPadding := uncmprValBuf.map fun buf => paddingSize attlen buf + datum.length }

theorem commonLen_le (first second : List UInt8) : commonLen first second ≤ first.length := by
  fun_induction commonLen first second with
  | case1 rest other others ih =>
    rw [List.length_cons]
    omega
  | case2 => omega
  | case3 => omega

theorem finalPrefixLen_pos (attlen : Option AttLen) (prev : List UInt8) {len : Nat} (pos : 0 < len)
    (rest : List (List UInt8)) :
    0 < finalPrefixLen attlen prev len rest ∧ finalPrefixLen attlen prev len rest ≤ len := by
  induction rest generalizing prev len with
  | nil => exact ⟨pos, le_rfl⟩
  | cons next rest ih =>
    rw [finalPrefixLen]
    split_ifs with shorter
    · obtain ⟨positive, bound⟩ := ih next shorter.2
      exact ⟨positive, bound.trans shorter.1.le⟩
    · exact ih next pos

/-- A prefix is the start of a value of the column, and has at least one character. -/
theorem prefixGetCmprMeta_spec {attlen : Option AttLen} {colArray : List (Option (List UInt8))}
    {prefixStr : List UInt8} (chosen : prefixGetCmprMeta attlen colArray = some prefixStr) :
    prefixStr ≠ [] ∧ ∃ str, some str ∈ colArray ∧ prefixStr <+: strData attlen str := by
  unfold prefixGetCmprMeta at chosen
  split at chosen
  · rename_i prev next rest found
    dsimp only at chosen
    split_ifs at chosen with absent
    obtain rfl := Option.some.inj chosen
    have member : some prev ∈ colArray := by
      rw [← List.reduceOption_mem_iff, found]
      exact List.mem_cons_self
    obtain ⟨positive, bound⟩ := finalPrefixLen_pos attlen next (Nat.pos_of_ne_zero absent) rest
    have inside : prefixLen attlen prev next ≤ (strData attlen prev).length := commonLen_le _ _
    refine ⟨?_, prev, member, List.take_prefix _ _⟩
    rw [← List.length_pos_iff, List.length_take]
    omega
  · cases chosen

theorem prefixGetCmprMeta_fixed (colArray : List (Option (List UInt8))) :
    prefixGetCmprMeta none colArray = none := by
  by_contra present
  obtain ⟨prefixStr, chosen⟩ := Option.ne_none_iff_exists'.mp present
  obtain ⟨nonempty, str, -, start⟩ := prefixGetCmprMeta_spec chosen
  exact nonempty (List.prefix_nil.mp start)

theorem zero_notMem_srcData (src : List UInt8) : 0 ∉ srcData .cstring src := by
  intro held
  obtain ⟨place, below, zero⟩ := List.getElem_of_mem held
  have before : place < src.findIdx (· == 0) := by
    rw [srcData, List.length_take] at below
    exact lt_of_lt_of_le below (min_le_left _ _)
  have clear := List.not_of_lt_findIdx before
  simp only [srcData, List.getElem_take] at zero
  simp [zero] at clear

/-- A value that is compressed is the prefix with a suffix. A prefix without a terminator does not reach
that of a C string. -/
theorem prefixCompress_eq {attlen : AttLen} {prefixStr val out : List UInt8}
    (clear : attlen = .cstring → 0 ∉ prefixStr)
    (accepted : prefixCompress attlen prefixStr val = some out) :
    ∃ suffix, srcData attlen val = prefixStr ++ suffix ∧
      out = compressedHeader attlen suffix.length ++ suffix ++ terminator attlen := by
  unfold prefixCompress at accepted
  dsimp only at accepted
  split_ifs at accepted with refused
  obtain ⟨long, start⟩ := not_or.mp refused
  rw [not_lt] at long
  have whole := List.take_append_drop prefixStr.length (srcData attlen val ++ terminator attlen)
  rw [not_ne_iff.mp start] at whole
  cases attlen with
  | varlena =>
    rw [terminator, List.append_nil] at whole accepted
    refine ⟨_, whole.symm, ?_⟩
    rw [terminator, List.append_nil]
    exact (Option.some.inj accepted).symm
  | cstring =>
    have inside : prefixStr.length ≤ (srcData .cstring val).length := by
      by_contra beyond
      rw [terminator, List.length_append, List.length_singleton] at long
      have all : prefixStr.length = (srcData .cstring val ++ [0]).length := by
        rw [List.length_append, List.length_singleton]
        omega
      rw [terminator, all, List.take_length] at start
      exact clear rfl (not_ne_iff.mp start ▸ by simp)
    have suffix_clear : 0 ∉ (srcData .cstring val).drop prefixStr.length :=
      fun held => zero_notMem_srcData val (List.mem_of_mem_drop held)
    have rest : (srcData .cstring val ++ [0]).drop prefixStr.length =
        (srcData .cstring val).drop prefixStr.length ++ [0] := List.drop_append_of_le_length inside
    have length := CStore.strlen_append_terminator suffix_clear []
    rw [terminator, rest] at whole accepted
    rw [length] at accepted
    refine ⟨(srcData .cstring val).drop prefixStr.length, ?_, ?_⟩
    · rw [← List.append_assoc] at whole
      exact (List.append_cancel_right whole).symm
    · rw [compressedHeader, terminator, List.nil_append, ← Option.some.inj accepted, List.take_of_length_le]
      rw [List.length_append, List.length_singleton]

theorem prefixUncompress_varlena (value : CStore.Varlena) {prefixStr out : List UInt8}
    (behind rest : List UInt8) (buf : Option (Nat × Nat))
    (accepted : prefixCompress .varlena prefixStr (value.bytes ++ behind) = some out) :
    prefixUncompress .varlena prefixStr (out ++ rest) buf =
      ⟨out.length, varlena4B (vardataAny value.bytes), buf.map fun buf =>
        paddingSize .varlena buf + (varlena4B (vardataAny value.bytes)).length⟩ := by
  obtain ⟨suffix, split, rfl⟩ := prefixCompress_eq (by simp) accepted
  rw [srcData_varlena] at split
  have bound := vardataAny_length_lt value
  have small : suffix.length + varhdrsz < 2 ^ 30 := by
    rw [split, List.length_append] at bound
    omega
  obtain ⟨size, data⟩ := srcData_compressed small rest
  rw [terminator, List.append_nil, prefixUncompress, data, size, terminator, List.append_nil, split,
    ← List.length_append]
  rfl

theorem prefixUncompress_cstring (value : CStore.Value .cstring) {prefixStr out : List UInt8}
    (behind rest : List UInt8) (buf : Option (Nat × Nat)) (clear : 0 ∉ prefixStr)
    (accepted : prefixCompress .cstring prefixStr (value.bytes ++ behind) = some out) :
    prefixUncompress .cstring prefixStr (out ++ rest) buf = ⟨out.length, value.bytes, buf.map fun buf =>
        paddingSize .cstring buf + value.bytes.length⟩ := by
  obtain ⟨suffix, split, rfl⟩ := prefixCompress_eq (fun _ => clear) accepted
  rw [srcData_cstring] at split
  obtain ⟨ended, text_clear⟩ := CStore.bytes_eq_text value
  have suffix_clear : 0 ∉ suffix := fun held => text_clear (split ▸ List.mem_append_right _ held)
  have data : srcData .cstring (suffix ++ [0] ++ rest) = suffix := by
    rw [srcData, List.append_assoc, List.singleton_append,
      CStore.strlen_append_terminator suffix_clear, List.take_left]
  rw [compressedHeader, terminator, List.nil_append, prefixUncompress, data, terminator,
    uncompressedHeader, List.nil_append, ← split, ← ended, List.length_append, List.length_singleton]

/-- The prefix of a column of C strings has no terminator. -/
theorem prefixGetCmprMeta_clear {colArray : List (Option (List UInt8))} {prefixStr : List UInt8}
    (chosen : prefixGetCmprMeta (some .cstring) colArray = some prefixStr) : 0 ∉ prefixStr := by
  obtain ⟨-, str, -, start⟩ := prefixGetCmprMeta_spec chosen
  exact fun held => zero_notMem_srcData str (start.subset held)

/-- Whatever prefix a column gets, every value that is compressed with it comes back: a varlena as its
data under an uncompressed header of four bytes, so unchanged where it had such a header, and a C string
unchanged. Columns of fixed length get none. -/
theorem prefixUncompress_prefixCompress (behind rest : List UInt8) (buf : Option (Nat × Nat)) :
    (∀ (colArray : List (Option CStore.Varlena)) (prefixStr : List UInt8),
      prefixGetCmprMeta (some .varlena) (colArray.map (Option.map (·.bytes))) = some prefixStr →
        ∀ (value : CStore.Varlena) (out : List UInt8),
          prefixCompress .varlena prefixStr (value.bytes ++ behind) = some out →
            (prefixUncompress .varlena prefixStr (out ++ rest) buf).cmprValSize = out.length ∧
            (prefixUncompress .varlena prefixStr (out ++ rest) buf).datum =
              varlena4B (vardataAny value.bytes) ∧
            (varattIs4BU value.bytes →
              (prefixUncompress .varlena prefixStr (out ++ rest) buf).datum = value.bytes)) ∧
    (∀ (colArray : List (Option (CStore.Value .cstring))) (prefixStr : List UInt8),
      prefixGetCmprMeta (some .cstring) (colArray.map (Option.map (·.bytes))) = some prefixStr →
        ∀ (value : CStore.Value .cstring) (out : List UInt8),
          prefixCompress .cstring prefixStr (value.bytes ++ behind) = some out →
            (prefixUncompress .cstring prefixStr (out ++ rest) buf).cmprValSize = out.length ∧
            (prefixUncompress .cstring prefixStr (out ++ rest) buf).datum = value.bytes) ∧
    ∀ colArray, prefixGetCmprMeta none colArray = none := by
  refine ⟨fun colArray prefixStr _ value out accepted => ?_,
    fun colArray prefixStr chosen value out accepted => ?_, prefixGetCmprMeta_fixed⟩
  · rw [prefixUncompress_varlena value behind rest buf accepted]
    exact ⟨rfl, rfl, CStore.varlena4B_vardataAny⟩
  · rw [prefixUncompress_cstring value behind rest buf (prefixGetCmprMeta_clear chosen) accepted]
    exact ⟨rfl, rfl⟩

/-- A string of three characters that begins with `ab`. -/
def sampleString (last : UInt8) : CStore.Varlena where
  bytes := [9, 97, 98, last]
  positive := Nat.succ_pos 3
  sized := by simp [varsizeAny]

/-- The prefix of `abc` and `abd` is taken off `abz`, whose header of one byte becomes one of four. -/
theorem prefixUncompress_prefixCompress_sample :
    (prefixUncompress .varlena [97, 98] ([5, 122] ++ [9]) none).datum = [28, 0, 0, 0, 97, 98, 122] :=
  ((prefixUncompress_prefixCompress [] [9] none).1 [some (sampleString 99), none, some (sampleString 100)]
    [97, 98] (by decide) (sampleString 122) [5, 122] (by decide)).2.1

end OpenGauss.PageCompress
