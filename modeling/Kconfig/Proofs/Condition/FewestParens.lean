import Kconfig.Proofs.Condition.ReadBack

/-!
# How many parentheses a formula takes

To be read at all, a formula needs parentheses where an operand binds less tightly than its operator
(`Formula.parens`). The reader keeps account: what is open, what waits and what is complete never
takes more parentheses than have been read (`Reading.Affords`), and each lexeme keeps it so
(`Reading.affords_step`). So no sequence of lexemes is read as a formula that takes more parentheses
than it has (`Reading.parens_le_opened`).

The order of a chain takes no parentheses, so the number is the same for formulas that differ in it
alone (`Formula.Reassociates`).
-/

namespace Kconfig

/-- How many parentheses the text of an atom has. -/
def Atom.parens : Atom → Nat
  | defined _ => 1
  | literal _ | name _ | quoted _ => 0

/-- How many parentheses a lexeme opens. -/
def Lexeme.parens : Lexeme → Nat
  | openParen => 1
  | operand a => a.parens
  | closeParen | not | defined | operator _ => 0

/-- How many parentheses lexemes open. -/
def Lexeme.opened : List Lexeme → Nat
  | [] => 0
  | l :: ls => l.parens + opened ls

/-- No lexeme opens no parenthesis. -/
@[simp] theorem Lexeme.opened_nil : opened [] = 0 := rfl

/-- A lexeme opens as many parentheses as it does, and those behind it open theirs. -/
@[simp] theorem Lexeme.opened_cons (l : Lexeme) (ls : List Lexeme) :
    opened (l :: ls) = l.parens + opened ls := rfl

/-- Lexemes in a row open the parentheses of both parts. -/
@[simp] theorem Lexeme.opened_append (a b : List Lexeme) :
    opened (a ++ b) = opened a + opened b := by
  induction a with
  | nil => simp
  | cons l a ih => simp [ih, Nat.add_assoc]

namespace Formula

variable {d : Dialect} {f g h : Formula} {op : Operator}

/-- How tightly the outermost operator of a formula binds. An atom binds as tightly as anything. -/
def level (d : Dialect) : Formula → Nat
  | atom _ => 7
  | not _ => d.notPower
  | binary op _ _ => op.power

/-- How many parentheses a formula takes. -/
def parens (d : Dialect) : Formula → Nat
  | atom a => a.parens
  | not f => f.parens d + if f.level d < d.notPower then 1 else 0
  | binary op f g =>
    (f.parens d + if f.level d < op.power then 1 else 0) +
      (g.parens d + if g.level d < op.power then 1 else 0)

/-- How many it takes as an operand of what binds as tightly as `power`. -/
def parensUnder (d : Dialect) (power : Nat) (f : Formula) : Nat :=
  f.parens d + if f.level d < power then 1 else 0

/-- A negation takes the parentheses of its operand under it. -/
theorem parens_not (d : Dialect) (f : Formula) :
    (not f).parens d = f.parensUnder d d.notPower := rfl

/-- A formula with two sides takes those of each side under its operator. -/
theorem parens_binary (d : Dialect) (op : Operator) (f g : Formula) :
    (binary op f g).parens d = f.parensUnder d op.power + g.parensUnder d op.power := rfl

/-- What binds tightly enough takes no more as an operand than by itself. -/
theorem parensUnder_of_le {power : Nat} (hpower : power ≤ f.level d) :
    f.parensUnder d power = f.parens d := by
  rw [parensUnder, if_neg (Nat.not_lt.mpr hpower), Nat.add_zero]

/-- What does not takes one more. -/
theorem parensUnder_of_lt {power : Nat} (hpower : f.level d < power) :
    f.parensUnder d power = f.parens d + 1 := by
  rw [parensUnder, if_pos hpower]

/-- A formula takes no fewer parentheses where it stands under something that binds tighter. -/
theorem parensUnder_mono {a b : Nat} (hab : a ≤ b) (f : Formula) :
    f.parensUnder d a ≤ f.parensUnder d b := by
  rcases Nat.lt_or_ge (f.level d) a with hlt | hge
  · exact Nat.le_of_eq (by
      rw [parensUnder_of_lt hlt, parensUnder_of_lt (Nat.lt_of_lt_of_le hlt hab)])
  · rw [parensUnder_of_le hge]
    exact Nat.le_add_right _ _

/-- Standing under anything costs at most one pair more. -/
theorem parensUnder_le_succ (power : Nat) (f : Formula) :
    f.parensUnder d power ≤ f.parens d + 1 := by
  unfold parensUnder
  split <;> omega

/-- A formula with two sides binds as tightly as its operator. -/
@[simp] theorem level_join (d : Dialect) (op : Operator) (f g : Formula) :
    (join op f g).level d = op.power := by
  cases g with
  | atom | not => rfl
  | binary op' g h =>
    unfold join
    split <;> rfl

/-- A formula that joins a chain takes as many parentheses there as under the connective. -/
theorem parens_join (d : Dialect) (op : Operator) (f g : Formula) :
    (join op f g).parens d = f.parensUnder d op.power + g.parensUnder d op.power := by
  induction g with
  | atom | not => rfl
  | binary op' g h ihg _ =>
    by_cases hchain : op' = op ∧ op.isConnective
    · obtain ⟨rfl, hop⟩ := hchain
      have hjoin : (join op' f g).level d = op'.power := level_join d op' f g
      have hself : (binary op' g h).level d = op'.power := rfl
      rw [join, if_pos ⟨rfl, hop⟩, parens_binary, parensUnder_of_le (Nat.le_of_eq hjoin.symm), ihg,
        parensUnder_of_le (Nat.le_of_eq hself.symm), parens_binary, Nat.add_assoc]
    · rw [join, if_neg hchain, parens_binary]

/-- Whether formulas differ only in how chains of one connective are put together. -/
inductive Reassociates : Formula → Formula → Prop
  | refl (f : Formula) : Reassociates f f
  | symm {f g : Formula} : Reassociates f g → Reassociates g f
  | trans {f g h : Formula} : Reassociates f g → Reassociates g h → Reassociates f h
  | chain {op : Operator} (f g h : Formula) : op.isConnective →
    Reassociates (binary op (binary op f g) h) (binary op f (binary op g h))
  | not {f g : Formula} : Reassociates f g → Reassociates (not f) (not g)
  | binary {op : Operator} {f f' g g' : Formula} : Reassociates f f' → Reassociates g g' →
    Reassociates (binary op f g) (binary op f' g')

/-- Regrouping does not change how tightly a formula binds. -/
theorem Reassociates.level_eq (hfg : f.Reassociates g) (d : Dialect) :
    f.level d = g.level d := by
  induction hfg with
  | refl | chain | not | binary => rfl
  | symm _ ih => exact ih.symm
  | trans _ _ ih₁ ih₂ => exact ih₁.trans ih₂

/-- Putting a chain together in another way takes the same number of parentheses. -/
theorem Reassociates.parens_eq (hfg : f.Reassociates g) (d : Dialect) :
    f.parens d = g.parens d := by
  induction hfg with
  | refl => rfl
  | symm _ ih => exact ih.symm
  | trans _ _ ih₁ ih₂ => exact ih₁.trans ih₂
  | @chain op f g h hop =>
    have hleft : (Formula.binary op f g).level d = op.power := rfl
    have hright : (Formula.binary op g h).level d = op.power := rfl
    rw [parens_binary, parens_binary, parensUnder_of_le (Nat.le_of_eq hleft.symm),
      parensUnder_of_le (Nat.le_of_eq hright.symm), parens_binary, parens_binary, Nat.add_assoc]
  | not hfg ih =>
    rw [parens_not, parens_not, parensUnder, parensUnder, ih, hfg.level_eq d]
  | binary hf hg ihf ihg =>
    rw [parens_binary, parens_binary, parensUnder, parensUnder, parensUnder, parensUnder, ihf, ihg,
      hf.level_eq d, hg.level_eq d]

end Formula

namespace Reading

variable {d : Dialect} {n : Nat}

/-- How many parentheses what waits takes. -/
def parensOf (d : Dialect) : List Hole → Nat
  | [] => 0
  | .paren :: holes => parensOf d holes + 1
  | .not :: holes => parensOf d holes
  | .after op f :: holes => f.parensUnder d op.power + parensOf d holes

/-- Whether no operator on a stack waits on one that binds more tightly. -/
def Ordered (d : Dialect) : List Hole → Prop
  | [] => True
  | .paren :: holes => Ordered d holes
  | .not :: holes => topPower d holes ≤ d.notPower ∧ Ordered d holes
  | .after op _ :: holes => topPower d holes ≤ op.power ∧ Ordered d holes

/-- Whether `n` parentheses are enough for all that was read. A formula that is complete may still
become an operand of whatever binds most tightly, if it is no atom: then it was in parentheses. -/
def Affords (d : Dialect) (n : Nat) : Reading → Prop
  | operand holes => Ordered d holes ∧ parensOf d holes ≤ n
  | asked holes | named _ holes => Ordered d holes ∧ parensOf d holes + 1 ≤ n
  | complete f holes => Ordered d holes ∧ f.parensUnder d 7 + parensOf d holes ≤ n

/-- Nothing binds more tightly than an atom. -/
theorem power_le (op : Operator) : op.power ≤ 7 := by
  rcases op with op | _ | _
  · cases op <;> decide
  · decide
  · decide

/-- Negation binds no tighter than an atom. -/
theorem notPower_le (d : Dialect) : d.notPower ≤ 7 := by
  cases d <;> decide

/-- What was read before a place asks there for no more than an atom gives. -/
theorem topPower_le (holes : List Hole) : topPower d holes ≤ 7 := by
  match holes with
  | [] | .paren :: _ => exact Nat.zero_le 7
  | .not :: _ => exact notPower_le d
  | .after op _ :: _ => exact power_le op

/-- Filling holes takes no more parentheses than were taken already. -/
theorem affords_settle {power : Nat} {f : Formula} {holes : List Hole} (hordered : Ordered d holes)
    (hn : f.parensUnder d (max power (topPower d holes)) + parensOf d holes ≤ n) :
    Ordered d (settle d power f holes).2 ∧
      (settle d power f holes).1.parensUnder d power +
        parensOf d (settle d power f holes).2 ≤ n := by
  induction holes generalizing f with
  | nil =>
    have hmax : max power (topPower d []) = power := Nat.max_eq_left (Nat.zero_le power)
    rw [hmax] at hn
    exact ⟨trivial, hn⟩
  | cons hole holes ih =>
    -- where no hole is filled, `f` stands under less than it was reckoned for
    have hstay : f.parensUnder d power + parensOf d (hole :: holes) ≤ n :=
      Nat.le_trans (Nat.add_le_add_right (Formula.parensUnder_mono (Nat.le_max_left ..) f) _) hn
    have htop : f.parensUnder d (topPower d (hole :: holes)) + parensOf d (hole :: holes) ≤ n :=
      Nat.le_trans (Nat.add_le_add_right (Formula.parensUnder_mono (Nat.le_max_right ..) f) _) hn
    cases hole with
    | paren => exact ⟨hordered, hstay⟩
    | not =>
      by_cases hpower : power ≤ d.notPower
      · rw [settle, if_pos hpower]
        apply ih hordered.2
        have hlevel : max power (topPower d holes) ≤ (Formula.not f).level d :=
          Nat.max_le.mpr ⟨hpower, hordered.1⟩
        rw [Formula.parensUnder_of_le hlevel, Formula.parens_not]
        exact htop
      · rw [settle, if_neg hpower]
        exact ⟨hordered, hstay⟩
    | after op g =>
      by_cases hpower : power ≤ op.power
      · rw [settle, if_pos hpower]
        apply ih hordered.2
        have hlevel : max power (topPower d holes) ≤ (Formula.join op g f).level d := by
          rw [Formula.level_join]
          exact Nat.max_le.mpr ⟨hpower, hordered.1⟩
        have hrest : f.parensUnder d op.power + (g.parensUnder d op.power + parensOf d holes) ≤ n :=
          htop
        rw [Formula.parensUnder_of_le hlevel, Formula.parens_join]
        omega
      · rw [settle, if_neg hpower]
        exact ⟨hordered, hstay⟩

/-- Holes are filled after a complete formula in particular. -/
theorem affords_settle_complete {f : Formula} {holes : List Hole}
    (h : (complete f holes).Affords d n) {power : Nat} (hpower : power ≤ 7) :
    Ordered d (settle d power f holes).2 ∧
      (settle d power f holes).1.parensUnder d power +
        parensOf d (settle d power f holes).2 ≤ n := by
  have hmax : max power (topPower d holes) ≤ 7 := Nat.max_le.mpr ⟨hpower, topPower_le holes⟩
  exact affords_settle h.1
    (Nat.le_trans (Nat.add_le_add_right (Formula.parensUnder_mono hmax f) _) h.2)

/-- One lexeme. -/
theorem affords_step {r r' : Reading} (h : r.Affords d n) {l : Lexeme}
    (hstep : step d r l = some r') : r'.Affords d (n + l.parens) := by
  cases r with
  | operand holes =>
    cases l with
    | operand a =>
      obtain rfl := Option.some.inj hstep
      have hatom : (Formula.atom a).parensUnder d 7 = a.parens :=
        Formula.parensUnder_of_le (Nat.le_refl 7)
      refine ⟨h.1, ?_⟩
      rw [hatom, Nat.add_comm]
      exact Nat.add_le_add_right h.2 a.parens
    | openParen =>
      obtain rfl := Option.some.inj hstep
      exact ⟨h.1, Nat.succ_le_succ h.2⟩
    | not =>
      obtain ⟨htop, hr'⟩ := Option.ite_none_right_eq_some.mp hstep
      obtain rfl := Option.some.inj hr'
      exact ⟨⟨htop, h.1⟩, h.2⟩
    | defined =>
      match holes with
      | .paren :: holes =>
        obtain rfl := Option.some.inj hstep
        exact ⟨h.1, h.2⟩
      | [] | .not :: _ | .after .. :: _ => cases hstep
    | closeParen | operator => cases hstep
  | asked holes =>
    match l with
    | .operand (.name x) =>
      obtain rfl := Option.some.inj hstep
      exact h
    | .operand (.literal _) | .operand (.quoted _) | .operand (.defined _) | .openParen
    | .closeParen | .not | .defined | .operator _ => cases hstep
  | named x holes =>
    cases l with
    | closeParen =>
      obtain rfl := Option.some.inj hstep
      have hatom : (Formula.atom (.defined x)).parensUnder d 7 = 1 := rfl
      refine ⟨h.1, ?_⟩
      rw [hatom, Nat.add_comm]
      exact h.2
    | _ => cases hstep
  | complete f holes =>
    cases l with
    | operator op =>
      obtain rfl := Option.some.inj hstep
      obtain ⟨hordered, hn⟩ := affords_settle_complete h (power_le op)
      exact ⟨⟨Nat.le_of_lt (topPower_settle (power_pos op) f holes), hordered⟩, hn⟩
    | closeParen =>
      obtain ⟨hordered, hn⟩ := affords_settle_complete h (Nat.zero_le 7)
      simp only [step] at hstep
      split at hstep
      · rename_i f' holes' hsettle
        obtain rfl := Option.some.inj hstep
        rw [hsettle] at hordered hn
        -- the parenthesis that is closed is enough for any place of the formula
        have hfree : f'.parensUnder d 7 ≤ f'.parensUnder d 0 + 1 := by
          rw [Formula.parensUnder_of_le (Nat.zero_le _)]
          exact f'.parensUnder_le_succ 7
        have hopen : f'.parensUnder d 0 + (parensOf d holes' + 1) ≤ n := hn
        refine ⟨hordered, ?_⟩
        show f'.parensUnder d 7 + parensOf d holes' ≤ n
        omega
      · cases hstep
    | _ => cases hstep

/-- All lexemes. -/
theorem affords_steps {ls : List Lexeme} {r r' : Reading} (h : r.Affords d n)
    (hsteps : ls.foldlM (step d) r = some r') : r'.Affords d (n + Lexeme.opened ls) := by
  induction ls generalizing r n with
  | nil =>
    obtain rfl := Option.some.inj hsteps
    exact h
  | cons l ls ih =>
    obtain ⟨r₁, hstep, hrest⟩ := Option.bind_eq_some_iff.mp hsteps
    rw [Lexeme.opened_cons, ← Nat.add_assoc]
    exact ih (affords_step h hstep) hrest

/-- Lexemes that are read as a formula open as many parentheses as the formula takes. -/
theorem parens_le_opened {ls : List Lexeme} {f : Formula}
    (h : read d (operand []) ls = some f) : f.parens d ≤ Lexeme.opened ls := by
  obtain ⟨r, hsteps, hend⟩ := Option.bind_eq_some_iff.mp h
  have hstart : (operand []).Affords d 0 := ⟨trivial, Nat.le_refl 0⟩
  have hr := affords_steps hstart hsteps
  rw [Nat.zero_add] at hr
  cases r with
  | operand | asked | named => cases hend
  | complete g holes =>
    obtain ⟨-, hn⟩ := affords_settle_complete hr (Nat.zero_le 7)
    simp only [formula?] at hend
    split at hend
    · rename_i f' hsettle
      obtain rfl := Option.some.inj hend
      rw [hsettle] at hn
      rw [Formula.parensUnder_of_le (Nat.zero_le _)] at hn
      exact hn
    · cases hend

end Reading

end Kconfig
