import Kconfig.Json.Reader
import Kconfig.Proofs.Json.Lexing

/-!
# Documents are read as they were written

The reader finds a document in its tokens, whatever is open around it and whatever comes after it
(`Json.run_tokens`). With the lexer's part this says that a plain document is what its text is read
as (`Json.ofText?_write`).
-/

namespace Kconfig.Json

open Reader (close startValue document?)

/-- What is to be shown of a document: the reader that must read a value reads it in its tokens. -/
def Reads (j : Json) : Prop :=
  ∀ (frames : List Frame) (more : List Token),
    Reader.run (.value frames) (j.tokens ++ more) = Reader.run (close j frames) more

/-- The first item of an array does not start with the array's end. -/
theorem run_arrayStart (j : Json) (frames : List Frame) (more : List Token) :
    Reader.run (.arrayStart frames) (j.tokens ++ more) =
      Reader.run (.value (.items [] :: frames)) (j.tokens ++ more) := by
  cases j with
  | null | bool | number | string => rfl
  | array items => cases items <;> rfl
  | object members => cases members <;> rfl

/-- The items of an array are read from their tokens, after those that have been read already. -/
theorem run_itemsTokens {items : List Json} (h : ∀ item ∈ items, Reads item)
    (before : List Json) (frames : List Frame) (more : List Token) :
    Reader.run (.arrayNext before frames) (itemsTokens items ++ more) =
      Reader.run (close (.array (before.reverse ++ items)) frames) more := by
  induction items generalizing before with
  | nil =>
    rw [List.append_nil]
    rfl
  | cons item items ih =>
    rw [List.forall_mem_cons] at h
    calc Reader.run (.arrayNext before frames) (itemsTokens (item :: items) ++ more)
        = Reader.run (.value (.items before :: frames))
            (item.tokens ++ (itemsTokens items ++ more)) := by
          simp [itemsTokens, Reader.run, Reader.step]
      _ = Reader.run (.arrayNext (item :: before) frames) (itemsTokens items ++ more) := h.1 _ _
      _ = Reader.run (close (.array ((item :: before).reverse ++ items)) frames) more :=
          ih h.2 (item :: before)
      _ = Reader.run (close (.array (before.reverse ++ item :: items)) frames) more := by simp

/-- The members of an object are read from their tokens, after those that have been read already. -/
theorem run_membersTokens {members : List (String × Json)}
    (h : ∀ member ∈ members, Reads member.2) (before : List (Spelling × Json))
    (frames : List Frame) (more : List Token) :
    Reader.run (.objectNext before frames)
        (membersTokens (members.map fun (key, value) => (some key, value)) ++ more) =
      Reader.run
        (close (.object (before.reverse ++ members.map fun (key, value) => (some key, value)))
          frames) more := by
  induction members generalizing before with
  | nil =>
    rw [List.map_nil, List.append_nil]
    rfl
  | cons member members ih =>
    obtain ⟨key, value⟩ := member
    rw [List.forall_mem_cons] at h
    have hvalue := h.1 (.member before (some key) :: frames)
      (membersTokens (members.map fun (key, value) => (some key, value)) ++ more)
    have hrest := ih h.2 ((some key, value) :: before)
    simp only [List.map_cons, membersTokens, List.cons_append, List.append_assoc, Reader.run,
      Reader.step]
    rw [hvalue, close, hrest]
    simp

/-- The reader finds a plain document in its tokens. -/
theorem run_tokens {j : Json} (h : j.IsPlain) : Reads j := by
  induction h with
  | null | bool | nat | text =>
    intro frames more
    rfl
  | @array items h ih =>
    intro frames more
    cases items with
    | nil => rfl
    | cons item items =>
      rw [List.forall_mem_cons] at ih
      calc Reader.run (.value frames) ((array (item :: items)).tokens ++ more)
          = Reader.run (.arrayStart frames) (item.tokens ++ (itemsTokens items ++ more)) := by
            simp [tokens, Reader.run, Reader.step, startValue]
        _ = Reader.run (.value (.items [] :: frames))
              (item.tokens ++ (itemsTokens items ++ more)) := run_arrayStart ..
        _ = Reader.run (.arrayNext [item] frames) (itemsTokens items ++ more) := ih.1 _ _
        _ = Reader.run (close (array (item :: items)) frames) more :=
            run_itemsTokens ih.2 [item] frames more
  | @ofMembers members h ih =>
    intro frames more
    cases members with
    | nil => rfl
    | cons member members =>
      obtain ⟨key, value⟩ := member
      rw [List.forall_mem_cons] at ih
      have hvalue := ih.1 (.member [] (some key) :: frames)
        (membersTokens (members.map fun (key, value) => (some key, value)) ++ more)
      have hrest := run_membersTokens ih.2 [(some key, value)] frames more
      simp only [Json.ofMembers, List.map_cons, tokens, List.cons_append, List.append_assoc,
        Reader.run, Reader.step, startValue]
      rw [hvalue, close, hrest]
      simp

/-- A plain document is what its text is read as. -/
theorem ofText?_write {j : Json} (h : j.IsPlain) : ofText? j.write = some j := by
  have hrun := run_tokens h [] []
  rw [List.append_nil] at hrun
  simp [ofText?, parse?, tokens?_write h, hrun, close, Reader.run, document?]

end Kconfig.Json
