import Kconfig.Json.Token
import Kconfig.Json.Writer
import Kconfig.Proofs.Json.Plain
import Kconfig.Proofs.Text.Parts

/-!
# The lexer takes written documents apart

The text of a plain document is lexed as the tokens of the document, whatever tokens there are
before it and whatever text comes after it (`Json.run_writeOnto`). Only a number leaves the lexer
inside a token, since nothing but the next character ends it. In a written document that character
is always a comma or a closing bracket (`Lexer.Rests`).
-/

namespace Kconfig.Json

open Kconfig.Text (Glyph)

mutual

/-- The tokens of a document. -/
def tokens : Json → List Token
  | .null => [.null]
  | .bool b => [.bool b]
  | .number n => [.number n]
  | .string s => [.string s]
  | .array [] => [.openArray, .closeArray]
  | .array (item :: items) => .openArray :: (tokens item ++ itemsTokens items)
  | .object [] => [.openObject, .closeObject]
  | .object ((key, value) :: members) =>
    .openObject :: .string key :: .colon :: (tokens value ++ membersTokens members)

/-- The tokens of the further items of an array and of its end. -/
def itemsTokens : List Json → List Token
  | [] => [.closeArray]
  | item :: items => .comma :: (tokens item ++ itemsTokens items)

/-- The tokens of the further members of an object and of its end. -/
def membersTokens : List (Spelling × Json) → List Token
  | [] => [.closeObject]
  | (key, value) :: members =>
    .comma :: .string key :: .colon :: (tokens value ++ membersTokens members)

end

namespace Lexer

variable {ts : List Token} {s : Lexer}

/-- Where a step leads to a state, the run goes on from there. -/
theorem run_of_step {s' : Lexer} {g : Glyph} (h : s.step g = some s') (gs : List Glyph) :
    run s (g :: gs) = run s' gs := by
  rw [run, h]

/-- The states in which the lexer may be after the tokens `ts`: between tokens, or at the end of a
number. -/
inductive Rests : List Token → Lexer → Prop where
  | between (ts : List Token) : Rests ts ⟨.between, ts⟩
  | number {phase : NumberPhase} (h : mayEnd phase) (n : Numeral) (ts : List Token) :
    Rests (.number n :: ts) ⟨.number phase n, ts⟩

/-- Where the lexer rests, the end of the text yields the tokens so far. -/
theorem finish_of_rests (h : Rests ts s) : s.finish = some ts.reverse := by
  cases h with
  | between => rfl
  | number h n ts => simp [finish, h]

/-- What is neither a digit, a point nor a letter of an exponent ends a number. -/
theorem step_of_rests (h : Rests ts s) {c : Char} (hdigit : c.isDigit = false) (hpoint : c ≠ '.')
    (hletter : ¬ (c = 'e' ∨ c = 'E')) : s.step (some c) = start ts c := by
  cases h with
  | between => rfl
  | @number phase h n ts =>
    have hextend : extend? phase n c = none := by
      cases phase with
      | sign | point | letter | exponentSign => cases h
      | zero | whole | fraction | exponent =>
        simp only [extend?, hdigit, hpoint, hletter, if_false, Bool.false_eq_true]
    simp only [step, hextend, h, if_true]

/-! ## Strings -/

/-- Four digits of a unit. -/
theorem run_unit (d : Draft) (ts : List Token) {a b c e : Nat} (ha : a < 16) (hb : b < 16)
    (hc : c < 16) (he : e < 16) (gs : List Glyph) :
    run ⟨.escape d, ts⟩
        (some 'u' :: some a.digitChar :: some b.digitChar :: some c.digitChar ::
          some e.digitChar :: gs) =
      run ⟨.string (d.pushUnit (16 * (16 * (16 * a + b) + c) + e)), ts⟩ gs := by
  have hu : step ⟨.escape d, ts⟩ (some 'u') = some ⟨.unit d 4 0, ts⟩ := rfl
  rw [run_of_step hu]
  simp [run, step, inUnit, Text.Hex.digit?_digitChar, ha, hb, hc, he]

/-- A control character without a letter of its own, written by its number. -/
theorem run_control (chars : List Char) (ts : List Token) {c : Char} (h : c.toNat < 0x20)
    {a b : Nat} (ha : a < 16) (hb : b < 16) (hab : 16 * a + b = c.toNat) (gs : List Glyph) :
    run ⟨.string { chars := chars }, ts⟩
        (some '\\' :: some 'u' :: some '0' :: some '0' :: some a.digitChar :: some b.digitChar ::
          gs) =
      run ⟨.string { chars := c :: chars }, ts⟩ gs := by
  have hbackslash : step ⟨.string { chars := chars }, ts⟩ (some '\\') =
      some ⟨.escape { chars := chars }, ts⟩ := rfl
  have hunit := run_unit { chars := chars } ts (a := 0) (b := 0) (by decide) (by decide) ha hb gs
  have hpush : Draft.pushUnit { chars := chars } c.toNat = { chars := c :: chars } := by
    have hhigh : ¬ (0xD800 ≤ c.toNat ∧ c.toNat ≤ 0xDBFF) := by omega
    have hlow : ¬ (0xDC00 ≤ c.toNat ∧ c.toNat ≤ 0xDFFF) := by omega
    simp [Draft.pushUnit, hhigh, hlow, Draft.push, Char.ofNat_toNat]
  rw [run_of_step hbackslash]
  simp only [Nat.mul_zero, Nat.zero_add, hab, hpush] at hunit
  exact hunit

/-- A character of a text, as it stands in a string literal. -/
theorem run_escape (chars : List Char) (ts : List Token) (c : Char) (rest : List Char) :
    run ⟨.string { chars := chars }, ts⟩ ((escape c ++ rest).map some) =
      run ⟨.string { chars := c :: chars }, ts⟩ (rest.map some) := by
  unfold escape
  split
  · rfl
  · rfl
  · rfl
  · rfl
  · rfl
  · rfl
  · rfl
  · split
    · have hspell : Text.Hex.spell c.toNat = [c.toNat.digitChar] :=
        Nat.toDigits_of_lt_base (by omega)
      rw [hspell]
      exact run_control chars ts (a := 0) (by omega) (by decide) (by omega) (by omega) _
    · split
      · have hspell : Text.Hex.spell c.toNat = ['1', (c.toNat - 16).digitChar] := by
          have happend := Nat.toDigits_append_toDigits (b := 16) (n := 1) (d := c.toNat - 16)
            (by decide) (by decide) (by omega)
          rw [Nat.toDigits_of_lt_base (by decide), Nat.toDigits_of_lt_base (by omega),
            Nat.mul_one, Nat.add_sub_of_le (by omega)] at happend
          exact happend.symm
        rw [hspell]
        exact run_control chars ts (a := 1) (by omega) (by decide) (by omega) (by omega) _
      · -- any other character stands for itself
        have hstep : inString ts { chars := chars } (some c) =
            some ⟨.string { chars := c :: chars }, ts⟩ := by
          unfold inString
          split <;> simp_all [Draft.push]
        exact run_of_step (s := ⟨.string { chars := chars }, ts⟩) hstep (rest.map some)

/-- The escapes of characters in a string are read back as the characters. -/
theorem run_escapes (chars : List Char) (ts : List Token) (text rest : List Char) :
    run ⟨.string { chars := chars }, ts⟩
        ((text.foldr (fun c tail => escape c ++ tail) rest).map some) =
      run ⟨.string { chars := text.reverse ++ chars }, ts⟩ (rest.map some) := by
  induction text generalizing chars with
  | nil => rfl
  | cons c text ih =>
    rw [List.foldr_cons, run_escape, ih]
    simp

/-- A string literal is lexed as the string. -/
theorem run_quoteOnto (ts : List Token) (text : String) (rest : List Char) :
    run ⟨.between, ts⟩ ((quoteOnto (some text) rest).map some) =
      run ⟨.between, .string (some text) :: ts⟩ (rest.map some) := by
  have hopen : step ⟨.between, ts⟩ (some '"') = some ⟨.string {}, ts⟩ := rfl
  have hclose : step ⟨.string { chars := text.toList.reverse ++ [] }, ts⟩ (some '"') =
      some ⟨.between, .string (some text) :: ts⟩ := by
    simp [step, inString, Draft.spelling]
  unfold quoteOnto
  rw [List.map_cons, run_of_step hopen, Option.getD_some, run_escapes, List.map_cons,
    run_of_step hclose]

/-! ## Numbers -/

/-- A positive number has a digit other than zero in front. -/
theorem toDigits_of_pos {n : Nat} (h : 0 < n) :
    ∃ c cs, Nat.toDigits 10 n = c :: cs ∧ c ≠ '0' := by
  induction n using Nat.strongRecOn with
  | ind n ih =>
    by_cases hlt : n < 10
    · refine ⟨n.digitChar, [], Nat.toDigits_of_lt_base hlt, ?_⟩
      rw [ne_eq, Nat.digitChar_eq_zero]
      omega
    · obtain ⟨c, cs, hdigits, hc⟩ := ih (n / 10) (by omega) (by omega)
      refine ⟨c, cs ++ [(n % 10).digitChar], ?_, hc⟩
      rw [Nat.toDigits_of_base_le (by decide) (by omega), hdigits]
      rfl

/-- Among the digits of a number, further digits go on with it. -/
theorem run_digits (ts : List Token) (before : List Char) {digits : List Char}
    (h : ∀ c ∈ digits, c.isDigit) (gs : List Glyph) :
    run ⟨.number .whole { whole := before }, ts⟩ (digits.map some ++ gs) =
      run ⟨.number .whole { whole := digits.reverse ++ before }, ts⟩ gs := by
  induction digits generalizing before with
  | nil => rfl
  | cons c digits ih =>
    rw [List.forall_mem_cons] at h
    have hstep : step ⟨.number .whole { whole := before }, ts⟩ (some c) =
        some ⟨.number .whole { whole := c :: before }, ts⟩ := by
      simp only [step, extend?, h.1, if_true]
    rw [List.map_cons, List.cons_append, run_of_step hstep, ih (c :: before) h.2]
    simp

/-- A digit other than zero starts a number. -/
theorem start_digit (ts : List Token) {c : Char} (hdigit : c.isDigit) (hc : c ≠ '0') :
    start ts c = some ⟨.number .whole { whole := [c] }, ts⟩ := by
  unfold start
  split <;> first | rfl | exact absurd hdigit (by decide) | exact absurd rfl hc | rw [if_pos hdigit]

/-- The literal of a natural number is lexed as the number. -/
theorem run_nat (ts : List Token) (n : Nat) (rest : List Char) :
    ∃ s, Rests (.number (.ofNat n) :: ts) s ∧
      run ⟨.between, ts⟩ (((Numeral.ofNat n).spell ++ rest).map some) = run s (rest.map some) := by
  have hspell : (Numeral.ofNat n).spell = Nat.toDigits 10 n := by
    simp [Numeral.ofNat, Numeral.spell]
  rw [hspell]
  rcases Nat.eq_zero_or_pos n with rfl | hpos
  · exact ⟨_, @Rests.number .zero rfl (.ofNat 0) ts, rfl⟩
  · obtain ⟨c, cs, hdigits, hc⟩ := toDigits_of_pos hpos
    have hall : ∀ d ∈ c :: cs, d.isDigit := by
      rw [← hdigits]
      intro d hd
      exact Nat.isDigit_of_mem_toDigits (by decide) (by decide) hd
    rw [List.forall_mem_cons] at hall
    have hnumber : Numeral.ofNat n = { whole := cs.reverse ++ [c] } := by
      rw [Numeral.ofNat, hdigits, List.reverse_cons]
    refine ⟨⟨.number .whole (.ofNat n), ts⟩, .number rfl _ ts, ?_⟩
    have hstart : step ⟨.between, ts⟩ (some c) = some ⟨.number .whole { whole := [c] }, ts⟩ :=
      start_digit ts hall.1 hc
    rw [hdigits, hnumber, List.cons_append, List.map_cons, run_of_step hstart, List.map_append,
      run_digits ts [c] hall.2]

end Lexer

open Lexer

/-! ## Documents -/

/-- What is to be shown of a document: its text is lexed as its tokens. -/
def Lexes (j : Json) : Prop :=
  ∀ (ts : List Token) (rest : List Char),
    ∃ s, Rests (j.tokens.reverse ++ ts) s ∧
      run ⟨.between, ts⟩ ((writeOnto j rest).map some) = run s (rest.map some)

/-- The further items of an array and its end. -/
theorem run_writeItemsOnto {items : List Json} (h : ∀ item ∈ items, Lexes item) {ts : List Token}
    {s : Lexer} (hs : Rests ts s) (rest : List Char) :
    run s ((writeItemsOnto items rest).map some) =
      run ⟨.between, (itemsTokens items).reverse ++ ts⟩ (rest.map some) := by
  induction items generalizing ts s with
  | nil =>
    have hclose := (step_of_rests hs (c := ']') rfl (by decide) (by decide)).trans rfl
    rw [writeItemsOnto, List.map_cons, run_of_step hclose]
    rfl
  | cons item items ih =>
    rw [List.forall_mem_cons] at h
    have hcomma := (step_of_rests hs (c := ',') rfl (by decide) (by decide)).trans rfl
    obtain ⟨s', hs', hrun⟩ := h.1 (.comma :: ts) (writeItemsOnto items rest)
    rw [writeItemsOnto, List.map_cons, run_of_step hcomma, hrun, ih h.2 hs']
    simp [itemsTokens]

/-- The further members of an object and its end. -/
theorem run_writeMembersOnto {members : List (String × Json)}
    (h : ∀ member ∈ members, Lexes member.2) {ts : List Token} {s : Lexer} (hs : Rests ts s)
    (rest : List Char) :
    run s ((writeMembersOnto (members.map fun (key, value) => (some key, value)) rest).map some) =
      run ⟨.between,
        (membersTokens (members.map fun (key, value) => (some key, value))).reverse ++ ts⟩
        (rest.map some) := by
  induction members generalizing ts s with
  | nil =>
    have hclose := (step_of_rests hs (c := '\x7d') rfl (by decide) (by decide)).trans rfl
    rw [List.map_nil, writeMembersOnto, List.map_cons, run_of_step hclose]
    rfl
  | cons member members ih =>
    obtain ⟨key, value⟩ := member
    rw [List.forall_mem_cons] at h
    have hcomma := (step_of_rests hs (c := ',') rfl (by decide) (by decide)).trans rfl
    have hcolon : step ⟨.between, .string (some key) :: .comma :: ts⟩ (some ':') =
        some ⟨.between, .colon :: .string (some key) :: .comma :: ts⟩ := rfl
    obtain ⟨s', hs', hrun⟩ := h.1 (.colon :: .string (some key) :: .comma :: ts)
      (writeMembersOnto (members.map fun (key, value) => (some key, value)) rest)
    rw [List.map_cons, writeMembersOnto, List.map_cons, run_of_step hcomma, run_quoteOnto,
      List.map_cons, run_of_step hcolon, hrun, ih h.2 hs']
    simp [membersTokens]

/-- The text of a plain document is lexed as its tokens. -/
theorem run_writeOnto {j : Json} (h : j.IsPlain) : Lexes j := by
  induction h with
  | null =>
    intro ts rest
    exact ⟨_, .between _, rfl⟩
  | bool b =>
    intro ts rest
    cases b <;> exact ⟨_, .between _, rfl⟩
  | nat h =>
    intro ts rest
    exact run_nat ts _ rest
  | text s =>
    intro ts rest
    exact ⟨_, .between _, run_quoteOnto ts s rest⟩
  | @array items h ih =>
    intro ts rest
    cases items with
    | nil => exact ⟨_, .between _, rfl⟩
    | cons item items =>
      rw [List.forall_mem_cons] at ih
      -- the first item has no comma before it, so it is lexed apart from the others
      have hopen : step ⟨.between, ts⟩ (some '[') = some ⟨.between, .openArray :: ts⟩ := rfl
      obtain ⟨s', hs', hrun⟩ := ih.1 (.openArray :: ts) (writeItemsOnto items rest)
      refine ⟨_, .between _, ?_⟩
      rw [writeOnto, List.map_cons, run_of_step hopen, hrun, run_writeItemsOnto ih.2 hs']
      simp [tokens]
  | @ofMembers members h ih =>
    intro ts rest
    cases members with
    | nil => exact ⟨_, .between _, rfl⟩
    | cons member members =>
      obtain ⟨key, value⟩ := member
      rw [List.forall_mem_cons] at ih
      have hopen : step ⟨.between, ts⟩ (some '\x7b') = some ⟨.between, .openObject :: ts⟩ := rfl
      have hcolon : step ⟨.between, .string (some key) :: .openObject :: ts⟩ (some ':') =
          some ⟨.between, .colon :: .string (some key) :: .openObject :: ts⟩ := rfl
      obtain ⟨s', hs', hrun⟩ := ih.1 (.colon :: .string (some key) :: .openObject :: ts)
        (writeMembersOnto (members.map fun (key, value) => (some key, value)) rest)
      refine ⟨_, .between _, ?_⟩
      rw [ofMembers, List.map_cons, writeOnto, List.map_cons, run_of_step hopen, run_quoteOnto,
        List.map_cons, run_of_step hcolon, hrun, run_writeMembersOnto ih.2 hs']
      simp [tokens]

/-- The tokens of a written document. -/
theorem tokens?_write {j : Json} (h : j.IsPlain) :
    tokens? (j.write.toList.map some) = some j.tokens := by
  obtain ⟨s, hs, hrun⟩ := run_writeOnto h [] []
  have hfinish := finish_of_rests hs
  unfold write
  rw [String.toList_ofList, tokens?, hrun]
  simp only [List.map_nil, run, hfinish]
  simp

end Kconfig.Json
