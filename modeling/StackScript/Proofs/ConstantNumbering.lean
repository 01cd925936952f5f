import Mathlib.Data.Finset.Card
import StackScript.Proofs.Recovery

/-!
# The numbering of constants

The constants of a program stand in the order in which its code first pushes them, and there are no
others.  Looking a constant up keeps this, and so does a plan as a whole, with the numbers used so
far as part of what is kept (`Constant.Numbering`).  A pass that cuts its pool back is no case of
its own, since what it builds is the program of a plan all the same.

* `Constant.Numbering.push` : one constant more;
* `Plan.numbering_code` : the constants of a plan, behind others;
* `Script.numberedByUse_of_compiled` : hence the constants of every compiled program.
-/

namespace StackScript

/-- The number of the constant that an instruction pushes. -/
def Instruction.constant? : Instruction → Option Int
  | const k => some k
  | halt | add | sub | mul | div | eq => none
  | jump _ | jumpIfFalse _ | loadContext _ | setContext _ => none

/-- The numbers of the constants that the code of a program pushes, in their order. -/
def Program.constantUses (p : Program) : List Int :=
  p.decoded.instructions.filterMap fun l => l.instruction.constant?

/-- The constants are numbered by their first use in the code, which uses all of them.  No number
and no text is there twice, and every truth value is used once. -/
structure Program.NumberedByUse (p : Program) : Prop where
  decodes : p.decoded.fault = none
  /-- A use is one of those before it, or the count of the distinct ones before it. -/
  order : ∀ before k after, p.constantUses = before ++ k :: after →
    k ∈ before ∨ k = before.toFinset.card
  occurs : ∀ i < p.constants.length, (i : Int) ∈ p.constantUses
  numbers : ∀ (i j : Nat) (x y : Double), p.constants[i]? = some (.number x) →
    p.constants[j]? = some (.number y) → x.numEq y = true → i = j
  strings : ∀ (i j : Nat) (t : String), p.constants[i]? = some (.string t) →
    p.constants[j]? = some (.string t) → i = j
  booleans : ∀ (i : Nat) (b : Bool), p.constants[i]? = some (.boolean b) →
    p.constantUses.count (i : Int) = 1

namespace Constant

/-! ### Constants and their uses so far -/

/-- The constants are numbered by the uses so far, and those that are never shared are used once. -/
structure Numbering (cs : List Constant) (uses : List Int) : Prop where
  order : ∀ before k after, uses = before ++ k :: after → k ∈ before ∨ k = before.toFinset.card
  mem_iff : ∀ k, k ∈ uses ↔ ∃ i < cs.length, k = (i : Int)
  distinct : cs.Pairwise fun c d => c.shares d = false
  once : ∀ (i : Nat) (c : Constant), cs[i]? = some c → c.key? = none → uses.count (i : Int) = 1

namespace Numbering

theorem nil : Numbering [] [] where
  order before k after h := by simp at h
  mem_iff k := by simp
  distinct := .nil
  once i c h := by simp at h

variable {cs : List Constant} {uses : List Int}

theorem card_uses (h : Numbering cs uses) : uses.toFinset.card = cs.length := by
  have huses : uses.toFinset = (Finset.range cs.length).image (fun i : Nat => (i : Int)) := by
    ext k
    simp [h.mem_iff, eq_comm]
  rw [huses, Finset.card_image_of_injective _ fun i j => Int.natCast_inj.1, Finset.card_range]

theorem order_concat {k : Int} (h : Numbering cs uses) (hk : k ∈ uses ∨ k = cs.length) :
    ∀ before m after, uses ++ [k] = before ++ m :: after →
      m ∈ before ∨ m = before.toFinset.card := by
  intro before m after heq
  rcases List.eq_nil_or_concat after with rfl | ⟨rest, last, rfl⟩
  · obtain ⟨rfl, rfl⟩ := List.append_singleton_inj.1 heq
    rwa [h.card_uses]
  · rw [List.concat_eq_append, ← List.cons_append, ← List.append_assoc] at heq
    exact h.order before m rest (List.append_singleton_inj.1 heq).1

/-- A constant that shares an entry uses its number once more. -/
theorem share (h : Numbering cs uses) {k : Nat} {c : Constant} (hk : cs[k]? = some c)
    (hkey : c.key? ≠ none) : Numbering cs (uses ++ [(k : Int)]) where
  order := by
    have hlt := (List.getElem?_eq_some_iff.1 hk).1
    exact h.order_concat (.inl ((h.mem_iff k).2 ⟨k, hlt, rfl⟩))
  mem_iff m := by
    have hlt := (List.getElem?_eq_some_iff.1 hk).1
    rw [List.mem_append, List.mem_singleton, h.mem_iff]
    constructor
    · rintro (hm | rfl)
      · exact hm
      · exact ⟨k, hlt, rfl⟩
    · exact .inl
  distinct := h.distinct
  once i d hd hnone := by
    have hne : (k : Int) ≠ i := by
      intro heq
      obtain rfl := Int.natCast_inj.1 heq
      rw [hk, Option.some.injEq] at hd
      exact hkey (hd ▸ hnone)
    rw [List.count_append, h.once i d hd hnone, List.count_singleton]
    simp [hne]

/-- A constant that shares no entry becomes the last one, and this is its first use. -/
theorem append (h : Numbering cs uses) {c : Constant} (hnone : ∀ d ∈ cs, c.shares d = false) :
    Numbering (cs ++ [c]) (uses ++ [(cs.length : Int)]) where
  order := h.order_concat (.inr rfl)
  mem_iff m := by
    rw [List.mem_append, List.mem_singleton, h.mem_iff, List.length_append, List.length_singleton]
    constructor
    · rintro (⟨i, hi, rfl⟩ | rfl)
      · exact ⟨i, by omega, rfl⟩
      · exact ⟨cs.length, by omega, rfl⟩
    · rintro ⟨i, hi, rfl⟩
      by_cases hlt : i < cs.length
      · exact .inl ⟨i, hlt, rfl⟩
      · exact .inr (by omega)
  distinct := by
    refine List.pairwise_append.2 ⟨h.distinct, List.pairwise_singleton _ _, fun d hd e he => ?_⟩
    rw [List.mem_singleton.1 he, shares_comm]
    exact hnone d hd
  once i d hd hkey := by
    rw [List.count_append, List.count_singleton]
    rw [List.getElem?_append] at hd
    split at hd
    · next hlt =>
      have hne : (cs.length : Int) ≠ i := by omega
      simp [h.once i d hd hkey, hne]
    · next hge =>
      have hlt : i - cs.length < 1 := (List.getElem?_eq_some_iff.1 hd).1
      obtain rfl : i = cs.length := by omega
      have hfresh : (cs.length : Int) ∉ uses := by
        rw [h.mem_iff]
        rintro ⟨k, hk, heq⟩
        omega
      simp [List.count_eq_zero.2 hfresh]

/-- **One constant more** is one more use. -/
theorem push (h : Numbering cs uses) (c : Constant) :
    Numbering (c.insertInto cs) (uses ++ [(c.placeIn cs : Int)]) := by
  rcases c.insertInto_cases cs with ⟨hsame, d, hd, hshares⟩ | ⟨hnew, hplace, hnone⟩
  · obtain ⟨k, -, hkey⟩ := shares_iff.1 hshares
    rw [hsame]
    exact h.share hd (by simp [hkey])
  · rw [hnew, hplace]
    exact h.append hnone

theorem eq_of_shares (h : Numbering cs uses) {i j : Nat} {c d : Constant} (hi : cs[i]? = some c)
    (hj : cs[j]? = some d) (hshares : c.shares d = true) : i = j := by
  obtain ⟨hilt, rfl⟩ := List.getElem?_eq_some_iff.1 hi
  obtain ⟨hjlt, rfl⟩ := List.getElem?_eq_some_iff.1 hj
  rcases Nat.lt_trichotomy i j with hlt | heq | hgt
  · simp [List.pairwise_iff_getElem.1 h.distinct i j hilt hjlt hlt] at hshares
  · exact heq
  · rw [shares_comm] at hshares
    simp [List.pairwise_iff_getElem.1 h.distinct j i hjlt hilt hgt] at hshares

end Numbering

end Constant

/-! ### Plans -/

namespace Plan

open Constant

theorem numbering_code (a : Plan) (offset : Nat) {cs : List Constant} {uses : List Int}
    (h : Numbering cs uses) :
    Numbering (a.pool cs) (uses ++ (a.code offset cs).filterMap Instruction.constant?) := by
  induction a generalizing offset cs uses with
  | push c => exact h.push c
  | skip | halt | load _ | store _ =>
    simpa [code, pool, List.filterMap_cons, Instruction.constant?] using h
  | operate op =>
    have hnone : op.instruction.constant? = none := by cases op <;> rfl
    simpa [code, pool, hnone] using h
  | andThen a b iha ihb =>
    rw [code, List.filterMap_append, ← List.append_assoc]
    exact ihb _ (iha _ h)
  | branch a b iha ihb =>
    -- The two jumps push nothing.
    have hcode : ((branch a b).code offset cs).filterMap Instruction.constant? =
        (a.code (offset + 2) cs).filterMap Instruction.constant? ++
          (b.code (offset + 2 + a.width + 2) (a.pool cs)).filterMap Instruction.constant? := by
      simp [code, List.filterMap_cons, Instruction.constant?]
    rw [hcode, ← List.append_assoc]
    exact ihb _ (iha _ h)

theorem constantUses_program (name : String) (a : Plan) :
    (a.program name).constantUses = (a.code 0 []).filterMap Instruction.constant? := by
  rw [Program.constantUses, decoded_program, Code.filterMap_locate]
  simp [Instruction.constant?]

/-- **The constants of a plan are numbered by their use** in its program. -/
theorem numberedByUse_program (name : String) (a : Plan) :
    (a.program name).NumberedByUse := by
  have h : Numbering (a.program name).constants (a.program name).constantUses := by
    rw [constantUses_program]
    exact numbering_code a 0 .nil
  exact {
    decodes := by rw [decoded_program]
    order := h.order
    occurs := fun i hi => (h.mem_iff i).2 ⟨i, hi, rfl⟩
    numbers := fun i j x y hi hj hxy => h.eq_of_shares hi hj hxy
    strings := fun i j t hi hj => h.eq_of_shares hi hj (by simp [shares, kind, same])
    booleans := fun i b hi => h.once i _ hi rfl }

end Plan

/-! ### Compiled programs -/

namespace Script

variable {α : Type} {s : Settings} {scope : Scope α} {script : Script}

/-- **Compiled programs number their constants by first use**, whether the script was compiled as a
whole or with refused statements left out: all constants are used, none is there twice that could
be shared, and truth values are used once each. -/
theorem numberedByUse_of_compiled :
    (∀ program, (script.compile s scope).result = .ok program → program.NumberedByUse) ∧
    (∀ report, (script.compileEach s scope).result = .ok report →
      report.program.NumberedByUse) := by
  constructor
  · intro program h
    obtain ⟨a, -, rfl⟩ := compile_eq_ok_iff.1 h
    exact a.numberedByUse_program s.name
  · intro report h
    obtain ⟨a, ha, -⟩ := exists_plan_of_compileEach h
    rw [ha]
    exact a.numberedByUse_program s.name

/-- The script `let [a, b] = 1 + "x"; true === true;`. -/
def repeating : Script :=
  let pair := Pattern.array ⟨1, 1⟩
    [.identifier ⟨1, 1⟩ (.ok "a"), .identifier ⟨1, 1⟩ (.ok "b")]
  let sum := Expr.binary ⟨1, 1⟩ (.number ⟨1, 1⟩ (.ok "1")) (.string ⟨1, 1⟩ (.ok "\"x\"")) (.ok "+")
  let test := Expr.binary ⟨1, 1⟩ (.boolean ⟨1, 1⟩ true) (.boolean ⟨1, 1⟩ true) (.ok "===")
  ⟨none, [⟨none, .lexical ⟨1, 1⟩ (.ok "let") [⟨pair, some sum⟩]⟩,
    ⟨none, .expression ⟨1, 1⟩ test⟩]⟩

/-- The sum is there for each of the two names, with the same two constants, and the truth value
has a constant for each of its uses.  The other script loses a statement after its constants have
been added. -/
theorem numberedByUse_repeating :
    let scope : Scope Unit := .empty []
    (∃ program, (repeating.compile .standard scope).result = .ok program ∧
      program.constantUses = [0, 1, 0, 1, 2, 3] ∧ program.NumberedByUse) ∧
    (∃ report, (stumbling.compileEach .standard scope).result = .ok report ∧
      report.program.NumberedByUse) := by
  intro scope
  have hwhole : (repeating.compile .standard scope).result = .ok _ :=
    compile_eq_ok_iff.2 ⟨_, rfl, rfl⟩
  obtain ⟨report, hpart⟩ := exists_report_of_sound (Scope.level_empty []) sound_stumbling
  exact ⟨⟨_, hwhole, by decide +kernel, numberedByUse_of_compiled.1 _ hwhole⟩,
    report, hpart, numberedByUse_of_compiled.2 report hpart⟩

end Script

end StackScript
