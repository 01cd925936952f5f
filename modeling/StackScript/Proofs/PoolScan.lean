import Mathlib.Data.List.Basic
import Mathlib.Data.Option.Basic
import StackScript.Pool

/-!
# The constant pool as a list

A pool finds its constants through a table.  `Constant.shares` says without any table which
constants share an entry, and `Constant.placeIn`, `Constant.insertInto` look for that entry by
scanning a list from its start.

A pool is `Pool.Indexed` when its table gives the first position of every key.  Adding a constant
keeps this and does what the scan does (`Pool.add_spec`), and so does truncation
(`Pool.toList_truncate`, `Pool.Indexed.truncate`).  Hence no sequence of commands tells a pool from
a list that is scanned (`Pool.performAll_eq_scan`).
-/

namespace StackScript

namespace Double

theorem numEq_eq_true_iff {x y : Double} :
    x.numEq y = true ↔ x.isNaN = false ∧ y.isNaN = false ∧ x.normalize = y.normalize := by
  cases x with
  | nan => simp [numEq, isNaN]
  | infinity s =>
    cases y with
    | nan => simp [numEq, isNaN]
    | infinity t => simp [numEq, isNaN, normalize]
    | finite t b =>
      by_cases hb : b = .zero <;> simp [numEq, isNaN, normalize, zero, hb]
  | finite s a =>
    cases y with
    | nan => simp [numEq, isNaN]
    | infinity t =>
      by_cases ha : a = .zero <;> simp [numEq, isNaN, normalize, zero, ha]
    | finite t b =>
      by_cases ha : a = .zero
      · by_cases hb : b = .zero
        · simp [numEq, isNaN, normalize, ha, hb]
        · simp [numEq, isNaN, normalize, zero, ha, hb, Ne.symm hb]
      · by_cases hb : b = .zero
        · simp [numEq, isNaN, normalize, zero, ha, hb]
        · simp [numEq, isNaN, normalize, ha, hb, and_comm]

/-- Only the zeros are equal as numbers and yet different. -/
theorem eq_of_numEq {x y : Double} (h : x.numEq y = true) (hx : x ≠ zero true)
    (hy : y ≠ zero true) : x = y := by
  cases x with
  | nan => simp [numEq] at h
  | infinity s => cases y <;> simp_all [numEq]
  | finite s a =>
    cases y with
    | nan | infinity t => simp [numEq] at h
    | finite t b =>
      simp only [numEq, Bool.and_eq_true, Bool.or_eq_true, beq_iff_eq] at h
      obtain ⟨rfl, rfl | rfl⟩ := h
      · rfl
      · cases s <;> cases t <;> simp_all [zero]

end Double

namespace Constant

/-- A constant uses the entry of another one: both are numbers, or both texts, and equal. -/
def shares (c d : Constant) : Bool := c.kind != .boolean && c.same d

theorem key?_eq_none_iff {c : Constant} : c.key? = none ↔ ∀ d, c.shares d = false := by
  cases c with
  | number x =>
    constructor
    · intro h d
      have hx : x.isNaN = true := by simpa [key?] using h
      cases d <;> cases x <;> simp_all [shares, same, Double.numEq, Double.isNaN]
    · intro h
      by_contra hx
      have hn : x.isNaN = false := by simpa [key?] using hx
      have := h (.number x)
      simp [shares, kind, same, Double.numEq_eq_true_iff, hn, ← Bool.not_eq_true] at this
  | boolean b => simp [key?, shares, kind]
  | string s => simpa [key?, shares, kind] using ⟨.string s, by simp [same]⟩

theorem shares_eq_of_key? {c d : Constant} {k : PoolKey} (h : c.key? = some k) :
    c.shares d = (d.key? == some k) := by
  rw [Bool.eq_iff_iff, beq_iff_eq]
  cases c with
  | boolean b => simp [key?] at h
  | string s =>
    obtain rfl : PoolKey.string s = k := by simpa [key?] using h
    cases d with
    | number y => simp [shares, same, key?]
    | boolean b => simp [shares, same, key?]
    | string t => simp [shares, kind, same, key?, eq_comm (a := s)]
  | number x =>
    have hx : x.isNaN = false := by
      by_contra hx
      simp [key?, hx] at h
    obtain rfl : PoolKey.number x.normalize = k := by simpa [key?, hx] using h
    cases d with
    | boolean b => simp [shares, same, key?]
    | string t => simp [shares, same, key?]
    | number y =>
      have hsame : shares (.number x) (.number y) = x.numEq y := rfl
      rw [hsame, Double.numEq_eq_true_iff]
      cases hy : y.isNaN <;> simp [key?, hx, hy, eq_comm (a := x.normalize)]

/-- Constants share an entry when they have one key. -/
theorem shares_iff {c d : Constant} :
    c.shares d = true ↔ ∃ k, c.key? = some k ∧ d.key? = some k := by
  cases hc : c.key? with
  | none => simp [key?_eq_none_iff.1 hc d]
  | some k => simp [shares_eq_of_key? hc]

theorem shares_comm (c d : Constant) : c.shares d = d.shares c := by
  rw [Bool.eq_iff_iff, shares_iff, shares_iff]
  simp only [and_comm]

/-- The position of a constant in a list: that of the first entry it shares, or else the end. -/
def placeIn (c : Constant) (cs : List Constant) : Nat := cs.findIdx c.shares

/-- The list with a constant added at its end, unless there is an entry to share. -/
def insertInto (c : Constant) (cs : List Constant) : List Constant :=
  if cs.any c.shares then cs else cs ++ [c]

theorem prefix_insertInto (c : Constant) (cs : List Constant) : cs <+: c.insertInto cs := by
  unfold insertInto
  split
  · exact List.prefix_refl cs
  · exact List.prefix_append cs [c]

theorem mem_insertInto {c d : Constant} {cs : List Constant} (h : d ∈ c.insertInto cs) :
    d ∈ cs ∨ d = c := by
  unfold insertInto at h
  split at h
  · exact .inl h
  · simpa using h

/-- **What adding a constant to a list can come to**: it shares the entry at its place, or it
becomes the last entry. -/
theorem insertInto_cases (c : Constant) (cs : List Constant) :
    (c.insertInto cs = cs ∧ ∃ d, cs[c.placeIn cs]? = some d ∧ c.shares d = true) ∨
      (c.insertInto cs = cs ++ [c] ∧ c.placeIn cs = cs.length ∧ ∀ d ∈ cs, c.shares d = false) := by
  unfold insertInto placeIn
  by_cases h : cs.any c.shares = true
  · have hlt : cs.findIdx c.shares < cs.length := List.findIdx_lt_length.2 (by simpa using h)
    exact .inl ⟨if_pos h, _, List.getElem?_eq_getElem hlt, List.findIdx_getElem⟩
  · have hnone : ∀ d ∈ cs, c.shares d = false := by simpa using h
    exact .inr ⟨if_neg h, List.findIdx_eq_length.2 hnone, hnone⟩

/-- The entry that a constant gets is the constant itself, or one that it shares; constants added
later do not change this. -/
theorem getElem?_placeIn {c : Constant} {cs ds : List Constant} (h : c.insertInto cs <+: ds) :
    ∃ d, ds[c.placeIn cs]? = some d ∧ (d = c ∨ c.shares d = true) := by
  obtain ⟨more, rfl⟩ := h
  rcases c.insertInto_cases cs with ⟨hsame, d, hd, hshares⟩ | ⟨hnew, hplace, -⟩
  · have hlt := (List.getElem?_eq_some_iff.1 hd).1
    exact ⟨d, by rw [hsame, List.getElem?_append_left hlt, hd], .inr hshares⟩
  · exact ⟨c, by simp [hnew, hplace], .inl rfl⟩

end Constant

namespace Pool

/-- The table of a pool gives the first position of every key. -/
def Indexed (p : Pool) : Prop := ∀ k, p.table[k]? = p.toList.findIdx? (·.key? == some k)

theorem indexed_empty : empty.Indexed := by
  intro k
  simp [empty, toList]

@[simp] theorem size_eq_length (p : Pool) : p.size = p.toList.length := by
  simp [size, toList]

@[simp] theorem toList_push (p : Pool) (c : Constant) (table : Std.HashMap PoolKey Nat) :
    toList ⟨p.values.push c, table⟩ = p.toList ++ [c] := by
  simp [toList]

theorem findIdx?_key_append {c : Constant} {k : PoolKey} (cs : List Constant)
    (h : c.key? ≠ some k) :
    (cs ++ [c]).findIdx? (·.key? == some k) = cs.findIdx? (·.key? == some k) := by
  simp [List.findIdx?_append, List.findIdx?_cons, h]

/-- **Adding is scanning.**  An indexed pool gives a constant the position that scanning its list
gives, grows as that list does, and stays indexed. -/
theorem add_spec {p : Pool} (hp : p.Indexed) (c : Constant) :
    (p.add c).1 = c.placeIn p.toList ∧ (p.add c).2.toList = c.insertInto p.toList ∧
      (p.add c).2.Indexed := by
  unfold Constant.placeIn Constant.insertInto
  cases hk : c.key? with
  | none =>
    have hadd : p.add c = (p.toList.length, ⟨p.values.push c, p.table⟩) := by simp [add, hk]
    rw [hadd]
    -- A constant without a key is always added, and the table does not learn of it.
    have hs : ∀ d, c.shares d = false := Constant.key?_eq_none_iff.1 hk
    have hlen : p.toList.findIdx c.shares = p.toList.length :=
      List.findIdx_eq_length.2 fun d _ => hs d
    refine ⟨by simp [hlen], by simp [hs], fun k => ?_⟩
    rw [toList_push, findIdx?_key_append _ (by simp [hk])]
    exact hp k
  | some k =>
    have hs : c.shares = fun d => d.key? == some k := funext fun d => Constant.shares_eq_of_key? hk
    rw [hs]
    have hpk := hp k
    cases ht : p.table[k]? with
    | some i =>
      have hadd : p.add c = (i, p) := by simp [add, hk, ht]
      rw [hadd]
      rw [ht, eq_comm, List.findIdx?_eq_some_iff_findIdx_eq] at hpk
      have hany : p.toList.any (fun d => d.key? == some k) = true :=
        List.any_eq_true.2 (List.findIdx_lt_length.1 (hpk.2.symm ▸ hpk.1))
      exact ⟨hpk.2.symm, by simp only [hany, ↓reduceIte], hp⟩
    | none =>
      have hadd : p.add c =
          (p.toList.length, ⟨p.values.push c, p.table.insert k p.toList.length⟩) := by
        simp [add, hk, ht]
      rw [hadd]
      rw [ht] at hpk
      have hno := List.findIdx?_eq_none_iff.1 hpk.symm
      have hlen : p.toList.findIdx (fun d => d.key? == some k) = p.toList.length :=
        List.findIdx_eq_length.2 hno
      have hany : p.toList.any (fun d => d.key? == some k) = false :=
        List.any_eq_false.2 fun d hd => by simp [hno d hd]
      refine ⟨by simp [hlen], by simp only [hany, toList_push, Bool.false_eq_true, ↓reduceIte],
        fun k' => ?_⟩
      -- The new entry is the first one of its own key, and of no other key.
      rw [toList_push, Std.HashMap.getElem?_insert]
      by_cases hkk : k = k'
      · subst hkk
        simp [List.findIdx?_append, List.findIdx?_cons, ← hpk, hk]
      · rw [findIdx?_key_append _ (by simp [hk, hkk])]
        simp [hkk, hp k']

theorem toList_truncate (p : Pool) (n : Nat) : (p.truncate n).toList = p.toList.take n := by
  simp [truncate, toList, SignedIndex.clamp]

theorem Indexed.truncate {p : Pool} (hp : p.Indexed) (n : Nat) : (p.truncate n).Indexed := by
  intro k
  rw [toList_truncate, List.findIdx?_take, ← hp k]
  simp only [Pool.truncate, Std.HashMap.getElem?_filter]
  cases p.table[k]? <;> simp [Option.guard, Option.pfilter]

/-! ### Commands -/

/-- What can be asked of a pool. -/
inductive Command where
  | add (c : Constant)
  | truncate (size : Nat)

/-- Carry out a command.  The answer to an addition is the index of the constant. -/
def perform (p : Pool) : Command → Option Nat × Pool
  | .add c => (some (p.add c).1, (p.add c).2)
  | .truncate size => (none, p.truncate size)

/-- Carry out a command on a bare list: a constant is looked for from the start of the list and
added at its end if no entry can be shared, and truncation cuts the list. -/
def scan (cs : List Constant) : Command → Option Nat × List Constant
  | .add c => (some (c.placeIn cs), c.insertInto cs)
  | .truncate size => (none, cs.take size)

/-- Carry out commands one after the other: their answers, and what they leave. -/
def performAll {σ : Type} (step : σ → Command → Option Nat × σ) :
    σ → List Command → List (Option Nat) × σ
  | s, [] => ([], s)
  | s, c :: cs =>
    let rest := performAll step (step s c).2 cs
    ((step s c).1 :: rest.1, rest.2)

/-- One command does to an indexed pool what it does to the list of its constants. -/
theorem perform_spec {p : Pool} (hp : p.Indexed) (c : Command) :
    (p.perform c).1 = (scan p.toList c).1 ∧ (p.perform c).2.toList = (scan p.toList c).2 ∧
      (p.perform c).2.Indexed := by
  cases c with
  | add c =>
    obtain ⟨hplace, hlist, hindexed⟩ := add_spec hp c
    exact ⟨congrArg some hplace, hlist, hindexed⟩
  | truncate size => exact ⟨rfl, p.toList_truncate size, hp.truncate size⟩

theorem performAll_of_indexed {p : Pool} (hp : p.Indexed) (commands : List Command) :
    (performAll perform p commands).1 = (performAll scan p.toList commands).1 ∧
      (performAll perform p commands).2.toList = (performAll scan p.toList commands).2 := by
  induction commands generalizing p with
  | nil => exact ⟨rfl, rfl⟩
  | cons c commands ih =>
    obtain ⟨hanswer, hlist, hindexed⟩ := perform_spec hp c
    obtain ⟨hanswers, hfinal⟩ := ih hindexed
    rw [hlist] at hanswers hfinal
    exact ⟨congrArg₂ List.cons hanswer hanswers, hfinal⟩

/-- **A pool cannot be told from a list that is scanned.**  Whatever constants are added to an empty
pool, and wherever it is cut in between, every answer and the constants in the end are those of the
scan. -/
theorem performAll_eq_scan (commands : List Command) :
    (performAll perform empty commands).1 = (performAll scan [] commands).1 ∧
      (performAll perform empty commands).2.toList = (performAll scan [] commands).2 :=
  performAll_of_indexed indexed_empty commands

-- The zeros share an entry, not-a-number shares none, and a text that was cut off is added anew.
example : (performAll scan [] [.add (.number (.zero false)), .add (.number (.zero true)),
    .add (.number .nan), .add (.number .nan), .add (.string "x"), .truncate 2,
    .add (.string "x")]).1 = [some 0, some 0, some 1, some 2, some 3, none, some 2] := by
  decide

end Pool

end StackScript
