import Mathlib.Data.List.Basic
import Mathlib.Tactic.Common

/-!
# Collisions of a hash that is applied twice

A hash `H` of lists, and the two-level keyed hash `H (outer ++ enc (H (inner ++ m)))`. If the
digests are rendered injectively, then two messages with one tag are equal, or the computation of
the two tags exhibits two distinct inputs of `H` with equal digests.
-/

namespace Collision

variable {α D : Type*}

/-- Two distinct inputs with one digest. -/
def Collides (H : List α → D) (x y : List α) : Prop := x ≠ y ∧ H x = H y

variable {H : List α → D} {enc : D → List α}

/-- Equal digests come from equal inputs or from a collision. -/
theorem eq_or_collides {x y : List α} (h : H x = H y) : x = y ∨ Collides H x y := by
  by_cases hxy : x = y
  · exact .inl hxy
  · exact .inr ⟨hxy, h⟩

/-- An injective encoding under a prefix: equal digests come from equal values or from a
collision. -/
theorem prefixed_eq_or_collides {β : Type*} {f : β → List α} (hf : Function.Injective f)
    (pre : List α) {a b : β} (h : H (pre ++ f a) = H (pre ++ f b)) :
    a = b ∨ Collides H (pre ++ f a) (pre ++ f b) := by
  obtain heq | hcol := eq_or_collides h
  · exact .inl (hf (List.append_cancel_left heq))
  · exact .inr hcol

/-- **Two levels.** Two messages with one tag are equal, or the inner inputs collide, or the outer
ones do. -/
theorem nested_eq_or_collides (henc : Function.Injective enc) (inner outer : List α)
    {m m' : List α}
    (h : H (outer ++ enc (H (inner ++ m))) = H (outer ++ enc (H (inner ++ m')))) :
    m = m' ∨ Collides H (inner ++ m) (inner ++ m') ∨
      Collides H (outer ++ enc (H (inner ++ m))) (outer ++ enc (H (inner ++ m'))) := by
  obtain hdigest | hcol := prefixed_eq_or_collides henc outer h
  · obtain hm | hcol := prefixed_eq_or_collides Function.injective_id inner hdigest
    · exact .inl hm
    · exact .inr (.inl hcol)
  · exact .inr (.inr hcol)

end Collision
