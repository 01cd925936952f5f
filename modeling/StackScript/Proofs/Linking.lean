import Mathlib.Data.List.Forall2
import StackScript.Proofs.PassPlan

/-!
# Scripts in pieces

A script can be compiled in two pieces, the second one in the scope that the first one leaves.
The two programs differ from the program of the whole script in where the jumps of the second
piece lead and in how constants are numbered, and in nothing else.

* `Instruction.Relocates` : an instruction is another one in another place;
* `Program.Joins` : a program is two programs, one behind the other;
* `Plan.relocates_code` : the code of a plan in two places;
* `Script.compile_append` : a script compiled as a whole and in two pieces.
-/

namespace StackScript

variable {α : Type}

/-- Equality of values: a constant equals itself, and the zeros equal each other. -/
def Constant.Equal (c d : Constant) : Prop := c = d ∨ c.same d = true

/-- An instruction does the same as another one that stands so many words later: it has the same
operation and the same slot, its target is moved, and its constant is an equal one, each looked up
in the constants of its own program. -/
inductive Instruction.Relocates (shift : Nat) (cs ds : List Constant) :
    Instruction → Instruction → Prop
  | jump {t u : Int} (h : u = t + shift) : Relocates shift cs ds (.jump t) (.jump u)
  | jumpIfFalse {t u : Int} (h : u = t + shift) :
      Relocates shift cs ds (.jumpIfFalse t) (.jumpIfFalse u)
  | const {i j : Nat} {c d : Constant} (hc : cs[i]? = some c) (hd : ds[j]? = some d)
      (h : c.Equal d) : Relocates shift cs ds (.const i) (.const j)
  | load (slot : Int) : Relocates shift cs ds (.loadContext slot) (.loadContext slot)
  | store (slot : Int) : Relocates shift cs ds (.setContext slot) (.setContext slot)
  | operate (op : Operation) : Relocates shift cs ds op.instruction op.instruction
  | halt : Relocates shift cs ds .halt .halt

/-- The same of an instruction at an offset. -/
structure Located.Relocates (shift : Nat) (cs ds : List Constant) (l l' : Located) : Prop where
  offset : l'.offset = l.offset + shift
  instruction : l.instruction.Relocates shift cs ds l'.instruction

/-- A program is two programs, one behind the other: the first one without its final halt, and the
second one moved behind it. -/
structure Program.Joins (first second whole : Program) : Prop where
  decodes : first.decoded.fault = none ∧ second.decoded.fault = none ∧ whole.decoded.fault = none
  halts : (first.decoded.instructions.map Located.instruction).getLast? = some .halt
  instructions : ∃ front back, whole.decoded.instructions = front ++ back ∧
    List.Forall₂ (Located.Relocates 0 first.constants whole.constants)
      first.decoded.instructions.dropLast front ∧
    List.Forall₂ (Located.Relocates (first.code.length - 1) second.constants whole.constants)
      second.decoded.instructions back

/-! ### Plans in two places -/

theorem Constant.equal_of_shares {c d e : Constant} (hd : d = c ∨ c.shares d = true)
    (he : e = c ∨ c.shares e = true) : d.Equal e := by
  have hsame {x y : Constant} (h : x.shares y = true) : x.same y = true :=
    (Bool.and_eq_true_iff.1 h).2
  rcases hd with rfl | hd
  · exact he.imp Eq.symm hsame
  · obtain ⟨k, hc, hdk⟩ := shares_iff.1 hd
    rcases he with rfl | he
    · exact .inr (hsame (shares_iff.2 ⟨k, hdk, hc⟩))
    · obtain ⟨k', hc', hek⟩ := shares_iff.1 he
      obtain rfl : k = k' := by simpa [hc] using hc'
      exact .inr (hsame (shares_iff.2 ⟨k, hdk, hek⟩))

namespace Plan

open Code

variable {ds es : List Constant}

/-- **The code of a plan in two places** is the same up to relocation. -/
theorem relocates_code {a : Plan} {offset shift : Nat} {cs cs' : List Constant}
    (hds : a.pool cs <+: ds) (hes : a.pool cs' <+: es) :
    List.Forall₂ (Located.Relocates shift ds es) (locate offset (a.code offset cs))
      (locate (offset + shift) (a.code (offset + shift) cs')) := by
  induction a generalizing offset cs cs' with
  | skip => exact .nil
  | halt => exact .cons ⟨rfl, .halt⟩ .nil
  | push c =>
    -- Either pool may hold another constant that `c` shares, such as the other zero.
    obtain ⟨d, hd, hcd⟩ := Constant.getElem?_placeIn hds
    obtain ⟨e, he, hce⟩ := Constant.getElem?_placeIn hes
    exact .cons ⟨rfl, .const hd he (Constant.equal_of_shares hcd hce)⟩ .nil
  | load slot => exact .cons ⟨rfl, .load slot⟩ .nil
  | store slot => exact .cons ⟨rfl, .store slot⟩ .nil
  | operate op => exact .cons ⟨rfl, .operate op⟩ .nil
  | andThen a b iha ihb =>
    simp only [code, locate_append, length_encode_code, Nat.add_right_comm _ shift]
    exact List.rel_append (iha ((b.prefix_pool _).trans hds) ((b.prefix_pool _).trans hes))
      (ihb hds hes)
  | branch a b iha ihb =>
    have hstart : offset + shift + 2 + a.width + 2 = offset + 2 + a.width + 2 + shift := by omega
    have hbody : offset + shift + 2 = offset + 2 + shift := by omega
    rw [locate_code_branch, locate_code_branch, hstart, hbody]
    refine .cons ⟨rfl, .jumpIfFalse (by omega)⟩ (List.rel_append ?_ (.cons ⟨?_, .jump ?_⟩ ?_))
    · exact iha ((b.prefix_pool _).trans hds) ((b.prefix_pool _).trans hes)
    · exact Nat.add_right_comm (offset + 2) shift a.width
    · omega
    · exact ihb hds hes

/-- Plans that become the same code everywhere. -/
structure Same (a b : Plan) : Prop where
  code : ∀ offset cs, a.code offset cs = b.code offset cs
  pool : ∀ cs, a.pool cs = b.pool cs

theorem Same.skip_andThen (a : Plan) : a.Same (.andThen .skip a) :=
  ⟨fun offset cs => by simp [Plan.code, width, Plan.pool], fun _ => rfl⟩

theorem Same.andThen_assoc {a b c d : Plan} (h : d.Same (.andThen b c)) :
    (andThen a d).Same (.andThen (.andThen a b) c) :=
  ⟨fun offset cs => by simp [Plan.code, h.code, width, Plan.pool, Nat.add_assoc],
    fun cs => by simp [Plan.pool, h.pool]⟩

theorem Same.program {a b : Plan} (h : a.Same b) (name : String) :
    a.program name = b.program name := by
  simp only [Plan.program, h.code, h.pool]

/-- **Two plans, one behind the other**, become their two programs, one behind the other. -/
theorem joins_program (a b : Plan) (name : String) :
    (a.program name).Joins (b.program name) ((andThen a b).program name) := by
  have hwhole : ((andThen a b).program name).decoded.instructions =
      locate 0 (a.code 0 []) ++ locate a.width (b.code a.width (a.pool []) ++ [.halt]) := by
    simp [decoded_program, Plan.code, locate_append]
  refine ⟨by simp [decoded_program], by simp [decoded_program], _, _, hwhole, ?_, ?_⟩
  · have hfirst : (a.program name).decoded.instructions.dropLast = locate 0 (a.code 0 []) := by
      simp [decoded_program, locate_append, locate]
    rw [hfirst]
    exact relocates_code (List.prefix_refl _) (b.prefix_pool _)
  · have hshift : (a.program name).code.length - 1 = a.width := by simp
    have hmoved : List.Forall₂ (Located.Relocates a.width (b.pool []) (b.pool (a.pool [])))
        (locate 0 (b.code 0 [])) (locate (0 + a.width) (b.code (0 + a.width) (a.pool []))) :=
      relocates_code (List.prefix_refl _) (List.prefix_refl _)
    rw [hshift, decoded_program, locate_append, locate_append]
    simp only [length_encode_code, Nat.zero_add] at hmoved ⊢
    exact List.rel_append hmoved (.cons ⟨Nat.add_comm _ _, .halt⟩ .nil)

end Plan

/-! ### Statements in two pieces -/

open Planned

namespace Stmt

variable {s : Settings} {depth : Nat} {scope : Scope α} {ts us : List Stmt}

theorem namesAll_append (ts us : List Stmt) : namesAll (ts ++ us) = namesAll ts ++ namesAll us := by
  induction ts with
  | nil => rfl
  | cons t ts ih => simp [namesAll, ih]

theorem planAll_of_append {c : Plan} (h : planAll s depth scope (ts ++ us) = .ok c) :
    ∃ a b, planAll s depth scope ts = .ok a ∧
      planAll s depth (scope.defineAll (namesAll ts)) us = .ok b ∧ c.Same (.andThen a b) := by
  induction ts generalizing scope c with
  | nil => exact ⟨.skip, c, rfl, h, .skip_andThen c⟩
  | cons t ts ih =>
    -- The statements nest to the right, so what belongs to the front has to be regrouped.
    obtain ⟨x, y, hx, hy, rfl⟩ := join_eq_ok_iff.1 h
    obtain ⟨a, b, ha, hb, hy⟩ := ih hy
    refine ⟨.andThen x a, b, join_eq_ok_iff.2 ⟨x, a, hx, ha, rfl⟩, ?_, hy.andThen_assoc⟩
    rwa [namesAll, Scope.defineAll_append]

theorem exists_planAll_append {a b : Plan} (ha : planAll s depth scope ts = .ok a)
    (hb : planAll s depth (scope.defineAll (namesAll ts)) us = .ok b) :
    ∃ c, planAll s depth scope (ts ++ us) = .ok c := by
  induction ts generalizing scope a with
  | nil => exact ⟨b, hb⟩
  | cons t ts ih =>
    obtain ⟨x, y, hx, hy, rfl⟩ := join_eq_ok_iff.1 ha
    rw [namesAll, Scope.defineAll_append] at hb
    obtain ⟨c, hc⟩ := ih hy hb
    exact ⟨.andThen x c, join_eq_ok_iff.2 ⟨x, c, hx, hc, rfl⟩⟩

end Stmt

namespace Script

variable {s : Settings} {scope : Scope α}

theorem plan_append (s : Settings) (scope : Scope α) (front back : List TopLevel) :
    (Script.mk none (front ++ back)).plan s scope =
      Stmt.planAll s 0 scope ((Script.mk none front).stmts ++ (Script.mk none back).stmts) := by
  rw [stmts, stmts, ← List.map_append]
  rfl

theorem names_append (front back : List TopLevel) :
    (Script.mk none (front ++ back)).names =
      (Script.mk none front).names ++ (Script.mk none back).names := by
  simp [names, stmts, Stmt.namesAll_append]

/-- The pieces of a script that is compiled as a whole. -/
theorem exists_plans_of_compile_append {front back : List TopLevel} {p : Program}
    (h : ((Script.mk none (front ++ back)).compile s scope).result = .ok p) :
    let first := (Script.mk none front).compile s scope
    let second := (Script.mk none back).compile s first.scope
    ∃ a b, first.result = .ok (a.program s.name) ∧ second.result = .ok (b.program s.name) ∧
      p = (Plan.andThen a b).program s.name ∧
      ((Script.mk none (front ++ back)).compile s scope).scope = second.scope := by
  intro first second
  obtain ⟨c, hc, rfl⟩ := compile_eq_ok_iff.1 h
  obtain ⟨a, b, ha, hb, hsame⟩ := Stmt.planAll_of_append (plan_append s scope front back ▸ hc)
  obtain ⟨hfirst, hscope⟩ : first.result = _ ∧ first.scope = _ := compile_of_plan ha
  have hb : (Script.mk none back).plan s first.scope = .ok b := by
    rw [hscope]
    exact hb
  obtain ⟨hsecond, hscope'⟩ : second.result = _ ∧ second.scope = _ := compile_of_plan hb
  refine ⟨a, b, hfirst, hsecond, hsame.program s.name, ?_⟩
  rw [(compile_of_plan hc).2, hscope', hscope, names_append, Scope.defineAll_append]

/-- **A script compiled as a whole and in two pieces.**  The whole is compiled exactly when both
pieces are, the second one in the scope that the first one leaves.  The scope is the same in the
end, and the program of the whole is the programs of the pieces, one behind the other. -/
theorem compile_append (s : Settings) (scope : Scope α) (front back : List TopLevel) :
    let whole := (Script.mk none (front ++ back)).compile s scope
    let first := (Script.mk none front).compile s scope
    let second := (Script.mk none back).compile s first.scope
    ((∃ p, whole.result = .ok p) ↔ (∃ p, first.result = .ok p) ∧ ∃ p, second.result = .ok p) ∧
    ∀ p p₁ p₂, whole.result = .ok p → first.result = .ok p₁ → second.result = .ok p₂ →
      whole.scope = second.scope ∧ p₁.Joins p₂ p := by
  intro whole first second
  refine ⟨⟨?_, ?_⟩, ?_⟩
  · rintro ⟨p, h⟩
    obtain ⟨a, b, hfirst, hsecond, -⟩ := exists_plans_of_compile_append h
    exact ⟨⟨_, hfirst⟩, _, hsecond⟩
  · rintro ⟨⟨p₁, h₁⟩, p₂, h₂⟩
    obtain ⟨a, ha, -⟩ := compile_eq_ok_iff.1 h₁
    obtain ⟨b, hb, -⟩ := compile_eq_ok_iff.1 h₂
    have hscope : first.scope = _ := (compile_of_plan ha).2
    rw [hscope] at hb
    obtain ⟨c, hc⟩ := Stmt.exists_planAll_append ha hb
    have hplan := (plan_append s scope front back).trans hc
    exact ⟨c.program s.name, compile_eq_ok_iff.2 ⟨c, hplan, rfl⟩⟩
  · intro p p₁ p₂ h h₁ h₂
    obtain ⟨a, b, hfirst, hsecond, rfl, hscope⟩ := exists_plans_of_compile_append h
    obtain rfl : a.program s.name = p₁ := Except.ok.inj (hfirst.symm.trans h₁)
    obtain rfl : b.program s.name = p₂ := Except.ok.inj (hsecond.symm.trans h₂)
    exact ⟨hscope, Plan.joins_program a b s.name⟩

/-- The script `let a = 1; if (a) a + 1;`, whose pieces use one constant. -/
theorem compile_append_shared_constant :
    let scope : Scope Unit := .empty []
    let one := Expr.number ⟨1, 1⟩ (.ok "1")
    let a := Expr.identifier ⟨1, 1⟩ (.ok "a")
    let front : List TopLevel :=
      [⟨none, .lexical ⟨1, 1⟩ (.ok "let") [⟨.identifier ⟨1, 1⟩ (.ok "a"), some one⟩]⟩]
    let back : List TopLevel :=
      [⟨none, .ifThen ⟨1, 1⟩ a (.expression ⟨1, 1⟩ (.binary ⟨1, 1⟩ a one (.ok "+")))⟩]
    let whole := (Script.mk none (front ++ back)).compile .standard scope
    let first := (Script.mk none front).compile .standard scope
    let second := (Script.mk none back).compile .standard first.scope
    ∃ p p₁ p₂, whole.result = .ok p ∧ first.result = .ok p₁ ∧ second.result = .ok p₂ ∧
      whole.scope = second.scope ∧ p₁.Joins p₂ p := by
  intro scope one a front back whole first second
  have h : whole.result = .ok _ := compile_eq_ok_iff.2 ⟨_, rfl, rfl⟩
  obtain ⟨hpieces, hjoins⟩ := compile_append .standard scope front back
  obtain ⟨⟨p₁, h₁⟩, p₂, h₂⟩ := hpieces.1 ⟨_, h⟩
  exact ⟨_, p₁, p₂, h, h₁, h₂, hjoins _ p₁ p₂ h h₁ h₂⟩

end Script

end StackScript
