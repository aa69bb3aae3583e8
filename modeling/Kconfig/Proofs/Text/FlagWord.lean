import Kconfig.Flags
import Kconfig.Proofs.Text.Parts

/-!
# Flag words are read as they were written

A flag word is read back from its text, bits without a name included (`FlagNames.read?_write`).
That takes a table of names that can be told apart in the text, each for one bit
(`FlagNames.IsSound`), as those of symbols and of menus are.
-/

namespace Kconfig.FlagNames

open Kconfig.Text (isBlank trim splitAt)

/-- A part of a flag text that is neither cut in two nor trimmed. -/
structure IsPart (part : List Char) : Prop where
  ne_nil : part ≠ []
  notBar : '|' ∉ part
  notBlank : ∀ c ∈ part, isBlank c = false

instance : DecidablePred IsPart := fun part =>
  decidable_of_iff (part ≠ [] ∧ '|' ∉ part ∧ part.all (! isBlank ·))
    ⟨fun h => ⟨h.1, h.2.1, by simpa using h.2.2⟩,
      fun h => ⟨h.ne_nil, h.notBar, by simpa using h.notBlank⟩⟩

/-- A table of names that are told apart from each other and from numbers, each for one bit. -/
structure IsSound (names : FlagNames) : Prop where
  nodup : (names.map Prod.fst).Nodup
  isPart : ∀ entry ∈ names, IsPart entry.1.toList
  notNumber : ∀ entry ∈ names, entry.1.toList.take 2 ≠ ['0', 'x']
  oneBit : ∀ entry ∈ names, ∃ k : Fin 32, entry.2.toBitVec = BitVec.twoPow 32 k

variable {names : FlagNames}

/-! ## Bits -/

/-- A word has a single bit or has nothing of it. -/
theorem and_oneBit {bit : UInt32} (h : ∃ k : Fin 32, bit.toBitVec = BitVec.twoPow 32 k)
    (bits : UInt32) : bits &&& bit = if bits &&& bit = bit then bit else 0 := by
  by_cases heq : bits &&& bit = bit
  · rw [if_pos heq]
    exact heq
  · rw [if_neg heq]
    obtain ⟨k, hk⟩ := h
    rw [← UInt32.toBitVec_inj, UInt32.toBitVec_and, hk, BitVec.and_twoPow] at heq
    rw [← UInt32.toBitVec_inj, UInt32.toBitVec_and, hk, BitVec.and_twoPow]
    by_cases hbit : bits.toBitVec.getLsbD k
    · rw [if_pos hbit] at heq
      exact absurd rfl heq
    · rw [if_neg hbit]
      rfl

/-- Bits are masked in each part of a word. -/
theorem and_or_distrib (a b c : UInt32) : a &&& (b ||| c) = a &&& b ||| a &&& c := by
  rw [← UInt32.toBitVec_inj]
  exact BitVec.and_or_distrib_left

/-- A word is its known bits and the rest. -/
theorem known_or_rest (bits known : UInt32) : bits &&& known ||| bits &&& ~~~known = bits := by
  rw [← and_or_distrib, ← UInt32.toBitVec_inj]
  simp

/-- The bits of all the parts of a list. -/
def bitsOf (bits : List UInt32) : UInt32 :=
  bits.foldr (· ||| ·) 0

/-- The named bits of a word are those of its names. -/
theorem bitsOf_named (h : ∀ entry ∈ names, ∃ k : Fin 32, entry.2.toBitVec = BitVec.twoPow 32 k)
    (bits : UInt32) :
    bitsOf ((names.filter fun entry => bits &&& entry.2 = entry.2).map Prod.snd) =
      bits &&& names.known := by
  induction names with
  | nil => simp [bitsOf, known]
  | cons entry names ih =>
    rw [List.forall_mem_cons] at h
    have hknown : known (entry :: names) = entry.2 ||| known names := rfl
    rw [hknown, and_or_distrib, and_oneBit h.1, ← ih h.2]
    by_cases hentry : bits &&& entry.2 = entry.2
    · simp [hentry, bitsOf]
    · simp [hentry, bitsOf]

/-! ## Parts -/

/-- Names that differ lead to their entries. -/
theorem lookup_of_mem (h : (names.map Prod.fst).Nodup) {entry : String × UInt32}
    (hentry : entry ∈ names) : names.lookup entry.1 = some entry.2 := by
  induction names with
  | nil => cases hentry
  | cons first names ih =>
    rw [List.map_cons, List.nodup_cons] at h
    rcases List.mem_cons.mp hentry with rfl | hmem
    · exact List.lookup_cons_self
    · have hne : entry.1 ≠ first.1 := by
        intro heq
        apply h.1
        rw [← heq]
        exact List.mem_map_of_mem hmem
      rw [List.lookup_cons, beq_eq_false_iff_ne.mpr hne]
      exact ih h.2 hmem

/-- A name stands for its bit. -/
theorem part?_name (h : names.IsSound) {entry : String × UInt32} (hentry : entry ∈ names) :
    names.part? entry.1.toList = some entry.2 := by
  have hnumber := h.notNumber entry hentry
  unfold part?
  split
  · rename_i digits heq
    rw [heq] at hnumber
    exact absurd rfl hnumber
  · rw [String.ofList_toList, lookup_of_mem h.nodup hentry]

/-- A word spelled in hexadecimal digits is read back. -/
theorem hexWord?_spell (bits : UInt32) : hexWord? (Text.Hex.spell bits.toNat) = some bits := by
  have hplus : ∀ c ∈ Text.Hex.spell bits.toNat, c ≠ '+' :=
    Text.Hex.forall_mem_spell (by decide) bits.toNat
  have hnumber := Text.Hex.number?_spell bits.toNat
  cases hspell : Text.Hex.spell bits.toNat with
  | nil => exact absurd hspell Nat.toDigits_ne_nil
  | cons c cs =>
    rw [hspell, List.forall_mem_cons] at hplus
    rw [hspell] at hnumber
    unfold hexWord?
    split
    · -- the first digit is no sign
      rename_i heq
      exact absurd (List.cons.inj heq).1 hplus.1
    · simp only [hnumber, if_pos (UInt32.toNat_lt_size bits), UInt32.ofNat_toNat]

/-- The text of a number. -/
theorem toList_number (bits : UInt32) :
    ("0x" ++ String.ofList (Text.Hex.spell bits.toNat)).toList =
      '0' :: 'x' :: Text.Hex.spell bits.toNat := by
  rw [String.toList_append, String.toList_ofList, String.toList_ofList]
  rfl

/-- A number stands for its word. -/
theorem part?_number (names : FlagNames) (bits : UInt32) :
    names.part? ('0' :: 'x' :: Text.Hex.spell bits.toNat) = some bits := by
  rw [part?, hexWord?_spell]

/-- The hexadecimal spelling of a word can be a part. -/
theorem isPart_number (bits : UInt32) :
    IsPart ('0' :: 'x' :: Text.Hex.spell bits.toNat) := by
  have hdigits : ∀ c ∈ Text.Hex.spell bits.toNat, c ≠ '|' ∧ isBlank c = false :=
    Text.Hex.forall_mem_spell (by decide) bits.toNat
  have hall : ∀ c ∈ '0' :: 'x' :: Text.Hex.spell bits.toNat, c ≠ '|' ∧ isBlank c = false := by
    simp only [List.forall_mem_cons]
    exact ⟨by decide, by decide, hdigits⟩
  refine ⟨List.cons_ne_nil _ _, ?_, ?_⟩
  · intro hbar
    exact (hall '|' hbar).1 rfl
  · intro c hc
    exact (hall c hc).2

/-! ## Texts -/

/-- A part with what stands around it in a text. -/
theorem trim_part {part : List Char} (h : IsPart part) {lead : List Char}
    (hlead : lead = [] ∨ lead = [' ']) :
    trim (lead ++ part) = part ∧ trim (lead ++ part ++ [' ']) = part := by
  have hblank : isBlank ' ' = true := by decide
  rcases hlead with rfl | rfl
  · exact ⟨Text.trim_eq_self h.notBlank, Text.trim_append_blank h.notBlank hblank⟩
  · simp only [List.cons_append, Text.trim_blank_cons hblank]
    exact ⟨Text.trim_eq_self h.notBlank, Text.trim_append_blank h.notBlank hblank⟩

/-- A part with a blank before it has no bar in it. -/
theorem notBar_lead {part : List Char} (h : IsPart part) {lead : List Char}
    (hlead : lead = [] ∨ lead = [' ']) : '|' ∉ lead ++ part := by
  rcases hlead with rfl | rfl
  · exact h.notBar
  · rw [List.singleton_append, List.mem_cons, not_or]
    exact ⟨by decide, h.notBar⟩

/-- The parts of a joined text are those that it was joined from. -/
theorem parts?_intercalate (part : List Char × UInt32) (parts : List (List Char × UInt32))
    (h : ∀ p ∈ part :: parts, IsPart p.1 ∧ names.part? p.1 = some p.2) {lead : List Char}
    (hlead : lead = [] ∨ lead = [' ']) :
    names.parts? (splitAt '|'
        (lead ++ [' ', '|', ' '].intercalate ((part :: parts).map Prod.fst))) =
      some (bitsOf ((part :: parts).map Prod.snd)) := by
  induction parts generalizing part lead with
  | nil =>
    obtain ⟨hpart, hbits⟩ := h part List.mem_cons_self
    simp only [List.map_cons, List.map_nil, List.intercalate_singleton]
    rw [Text.splitAt_of_not_mem (notBar_lead hpart hlead)]
    simp [parts?, (trim_part hpart hlead).1, hbits, bitsOf]
  | cons next parts ih =>
    rw [List.forall_mem_cons] at h
    obtain ⟨⟨hpart, hbits⟩, hrest⟩ := h
    have hnotBar : '|' ∉ lead ++ part.1 ++ [' '] := by
      rw [List.mem_append, not_or]
      exact ⟨notBar_lead hpart hlead, by decide⟩
    have htext : lead ++ [' ', '|', ' '].intercalate ((part :: next :: parts).map Prod.fst) =
        lead ++ part.1 ++ [' '] ++
          '|' :: ([' '] ++ [' ', '|', ' '].intercalate ((next :: parts).map Prod.fst)) := by
      simp [List.intercalate_cons_cons]
    rw [htext, Text.splitAt_append hnotBar, parts?, (trim_part hpart hlead).2, hbits,
      ih next hrest (.inr rfl)]
    rfl

/-- The parts of a word's text, each with what it stands for. -/
def readParts (names : FlagNames) (bits : UInt32) : List (List Char × UInt32) :=
  ((names.filter fun entry => bits &&& entry.2 = entry.2).map fun entry =>
      (entry.1.toList, entry.2)) ++
    if bits &&& ~~~ names.known = 0 then []
    else [('0' :: 'x' :: Text.Hex.spell (bits &&& ~~~ names.known).toNat,
      bits &&& ~~~ names.known)]

/-- The parts that are read are the parts that were written. -/
theorem readParts_fst (names : FlagNames) (bits : UInt32) :
    (names.readParts bits).map Prod.fst = (names.parts bits).map String.toList := by
  unfold readParts parts
  by_cases hzero : bits &&& ~~~ names.known = 0
  · simp [hzero, Function.comp_def]
  · simp only [if_neg hzero, List.map_append, List.map_map, List.map_cons, List.map_nil,
      toList_number]
    rfl

/-- The bits of words in a row are those of the first, then those of the others. -/
theorem bitsOf_append (as bs : List UInt32) : bitsOf (as ++ bs) = bitsOf as ||| bitsOf bs := by
  induction as with
  | nil => simp [bitsOf]
  | cons a as ih =>
    have hcons : ∀ l, bitsOf (a :: l) = a ||| bitsOf l := by
      intro l
      rfl
    rw [List.cons_append, hcons, hcons, ih, UInt32.or_assoc]

/-- The parts of a word's text stand for the word. -/
theorem bitsOf_readParts (h : names.IsSound) (bits : UInt32) :
    bitsOf ((names.readParts bits).map Prod.snd) = bits := by
  have hnamed := bitsOf_named h.oneBit bits
  have hrest : bitsOf ((if bits &&& ~~~ names.known = 0 then []
      else [('0' :: 'x' :: Text.Hex.spell (bits &&& ~~~ names.known).toNat,
        bits &&& ~~~ names.known)]).map Prod.snd) = bits &&& ~~~ names.known := by
    by_cases hzero : bits &&& ~~~ names.known = 0
    · rw [if_pos hzero, hzero]
      rfl
    · rw [if_neg hzero]
      simp [bitsOf]
  unfold readParts
  rw [List.map_append, bitsOf_append, List.map_map, hrest]
  exact (congrArg (· ||| _) hnamed).trans (known_or_rest bits names.known)

/-- Each part that was written is read as the bits it was written for. -/
theorem readParts_good (h : names.IsSound) (bits : UInt32) :
    ∀ p ∈ names.readParts bits, IsPart p.1 ∧ names.part? p.1 = some p.2 := by
  unfold readParts
  rw [List.forall_mem_append]
  constructor
  · simp only [List.mem_map, List.mem_filter]
    rintro p ⟨entry, ⟨hentry, -⟩, rfl⟩
    exact ⟨h.isPart entry hentry, part?_name h hentry⟩
  · split
    · exact nofun
    · exact List.forall_mem_singleton.mpr ⟨isPart_number _, part?_number names _⟩

/-- A word is what its text is read as. -/
theorem read?_write (h : names.IsSound) (bits : UInt32) :
    names.read? (names.write bits) = some bits := by
  have hbits := bitsOf_readParts h bits
  have hgood := readParts_good h bits
  have htext : (names.write bits).toList =
      [' ', '|', ' '].intercalate ((names.readParts bits).map Prod.fst) := by
    rw [readParts_fst, write, String.toList_intercalate]
    rfl
  unfold read?
  rw [htext]
  cases hparts : names.readParts bits with
  | nil =>
    rw [hparts] at hbits
    have hblank : trim [] = [] := rfl
    rw [List.map_nil, List.intercalate_nil, if_pos hblank]
    exact congrArg some hbits
  | cons part parts =>
    rw [hparts] at hbits hgood
    have hpart := (hgood part List.mem_cons_self).1
    have hne : trim ([' ', '|', ' '].intercalate ((part :: parts).map Prod.fst)) ≠ [] := by
      obtain ⟨chars, bits'⟩ := part
      cases chars with
      | nil => exact absurd rfl hpart.ne_nil
      | cons c cs =>
        rw [List.map_cons, List.intercalate_cons_cons_left]
        exact Text.trim_ne_nil (hpart.notBlank c List.mem_cons_self) _
    have hread := parts?_intercalate part parts hgood (.inl rfl)
    rw [if_neg hne, ← List.nil_append (List.intercalate ..), hread, hbits]

end Kconfig.FlagNames

namespace Kconfig

/-- The names of symbols' flags. -/
theorem SymbolFlags.names_isSound : SymbolFlags.names.IsSound where
  nodup := by decide
  isPart := by decide
  notNumber := by decide
  oneBit := by decide

/-- The names of menus' flags. -/
theorem MenuFlags.names_isSound : MenuFlags.names.IsSound where
  nodup := by decide
  isPart := by decide
  notNumber := by decide
  oneBit := by decide

end Kconfig
