/-!
# Comparators

A comparator is any function that answers how its first argument stands to its
second. It is not required to be an order: what a sorted collection promises
under a lawless comparator, and what it promises under a lawful one, are
separate statements, and the second kind assumes `Std.TransCmp`.

A comparator also knows whether it is the natural order of its type or was
supplied by the caller, even where the two answer alike.
-/

namespace LiveCollections

variable {K L : Type}

structure Comparator (K : Type) where
  compare : K → K → Ordering
  isNatural : Bool

namespace Comparator

def natural [Ord K] : Comparator K := ⟨Ord.compare, true⟩

def custom (compare : K → K → Ordering) : Comparator K := ⟨compare, false⟩

instance [Ord K] : Inhabited (Comparator K) := ⟨natural⟩

/-- The comparator with its two arguments exchanged. -/
def reversed (c : Comparator K) : Comparator K := custom fun a b => c.compare b a

/-- Compares by a measure, so that unequal keys of one measure count as the same. -/
def byMeasure [Ord L] (measure : K → L) : Comparator K :=
  custom fun a b => Ord.compare (measure a) (measure b)

/-- Places the absent key after every present one. -/
def absentLast [Ord K] : Comparator (Option K) :=
  custom fun
    | none, none => .eq
    | none, some _ => .gt
    | some _, none => .lt
    | some a, some b => Ord.compare a b

@[simp] theorem compare_natural [Ord K] : (natural : Comparator K).compare = Ord.compare := rfl

@[simp] theorem compare_custom (f : K → K → Ordering) : (custom f).compare = f := rfl

@[simp] theorem isNatural_natural [Ord K] : (natural : Comparator K).isNatural = true := rfl

@[simp] theorem isNatural_custom (f : K → K → Ordering) : (custom f).isNatural = false := rfl

end Comparator

end LiveCollections
