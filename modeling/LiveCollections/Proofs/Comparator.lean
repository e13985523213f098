import LiveCollections.Comparator
import Mathlib.Order.Lattice

/-!
# Lawful comparators

A comparator is lawful when exchanging its arguments exchanges its answer and when it
is transitive. It may still take unequal keys for one another: the keys fall into
classes, and the comparator is a linear order of the classes.
-/

namespace LiveCollections.Comparator

variable {K L : Type}

def Ordered (c : Comparator K) (keys : List K) : Prop :=
  keys.Pairwise fun a b => (c.compare a b).isLE

def Ascending (c : Comparator K) (keys : List K) : Prop :=
  keys.Pairwise fun a b => c.compare a b = .lt

theorem Ascending.ordered {c : Comparator K} {keys : List K} (h : c.Ascending keys) :
    c.Ordered keys := List.Pairwise.imp (fun e => by simp [e]) h

instance [Ord K] [Std.TransOrd K] : Std.TransCmp (natural : Comparator K).compare :=
  inferInstanceAs (Std.TransCmp Ord.compare)

instance [Ord K] [BEq K] [Std.LawfulBEqOrd K] :
    Std.LawfulBEqCmp (natural : Comparator K).compare :=
  inferInstanceAs (Std.LawfulBEqCmp Ord.compare)

instance [Ord L] [Std.TransOrd L] (measure : K → L) : Std.TransCmp (byMeasure measure).compare :=
  inferInstanceAs (Std.TransCmp (compareOn measure))

theorem Ascending.nodup {c : Comparator K} [Std.TransCmp c.compare] {keys : List K}
    (h : c.Ascending keys) : keys.Nodup := by
  refine List.Pairwise.imp ?_ h
  rintro a _ lt rfl
  have same : c.compare a a = .eq := Std.ReflCmp.compare_self
  rw [same] at lt
  cases lt

theorem Ascending.index_unique {c : Comparator K} [Std.TransCmp c.compare] {keys : List K}
    (h : c.Ascending keys) {i j : Nat} {a b : K} (hi : keys[i]? = some a) (hj : keys[j]? = some b)
    (same : c.compare a b = .eq) : i = j := by
  obtain ⟨li, rfl⟩ := List.getElem?_eq_some_iff.mp hi
  obtain ⟨lj, rfl⟩ := List.getElem?_eq_some_iff.mp hj
  rcases Nat.lt_trichotomy i j with lt | rfl | gt
  · rw [List.pairwise_iff_getElem.mp h i j li lj lt] at same
    cases same
  · rfl
  · have below := List.pairwise_iff_getElem.mp h j i lj li gt
    rw [Std.OrientedCmp.gt_of_lt below] at same
    cases same

-- ---------------------------------------------------------------------------
-- Classes
-- ---------------------------------------------------------------------------

variable (c : Comparator K) [Std.TransCmp c.compare]

def classes : Setoid K where
  r a b := c.compare a b = .eq
  iseqv := {
    refl := fun _ => Std.ReflCmp.compare_self
    symm := Std.OrientedCmp.eq_symm
    trans := Std.TransCmp.eq_trans }

def Class : Type := Quotient c.classes

def classOf (key : K) : c.Class := Quotient.mk c.classes key

variable {c} {a b : K}

theorem classOf_eq_iff : c.classOf a = c.classOf b ↔ c.compare a b = .eq :=
  ⟨fun h => Quotient.exact (s := c.classes) h, fun h => Quotient.sound (s := c.classes) h⟩

instance : DecidableEq c.Class :=
  have (a b : K) : Decidable (c.classes.r a b) :=
    inferInstanceAs (Decidable (c.compare a b = .eq))
  @Quotient.decidableEq K c.classes this

theorem compare_congr {a' b' : K} (ha : c.compare a a' = .eq) (hb : c.compare b b' = .eq) :
    c.compare a b = c.compare a' b' :=
  (Std.TransCmp.congr_left ha).trans (Std.TransCmp.congr_right hb)

def compareClasses (x y : c.Class) : Ordering :=
  Quotient.lift₂ c.compare (fun _ _ _ _ => compare_congr) x y

instance : Std.TransCmp (compareClasses : c.Class → c.Class → Ordering) where
  eq_swap {x y} := by
    induction x, y using Quotient.inductionOn₂ with
    | h a b => exact @Std.OrientedCmp.eq_swap _ c.compare _ a b
  isLE_trans {x y z} := by
    induction x, y, z using Quotient.inductionOn₃ with
    | h a b d => exact @Std.TransCmp.isLE_trans _ c.compare _ a b d

theorem eq_of_compareClasses {x y : c.Class} (h : compareClasses x y = .eq) : x = y := by
  induction x, y using Quotient.inductionOn₂ with
  | h a b => exact classOf_eq_iff.mpr h

instance : LinearOrder c.Class where
  le x y := (compareClasses x y).isLE
  le_refl _ := Ordering.isLE_of_eq_eq Std.ReflCmp.compare_self
  le_trans _ _ _ := Std.TransCmp.isLE_trans
  le_antisymm _ _ h h' := eq_of_compareClasses (Std.OrientedCmp.isLE_antisymm h h')
  le_total x y := by
    cases h : compareClasses x y with
    | lt | eq => exact .inl rfl
    | gt => exact .inr (Ordering.isLE_of_eq_lt (Std.OrientedCmp.lt_of_gt h))
  toDecidableLE _ _ := inferInstanceAs (Decidable (_ = true))

theorem classOf_le_iff : c.classOf a ≤ c.classOf b ↔ (c.compare a b).isLE := Iff.rfl

end LiveCollections.Comparator
