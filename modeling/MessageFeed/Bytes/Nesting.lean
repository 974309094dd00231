import MessageFeed.Bytes.Basic

/-!
# Nesting of braces

`net` says how many brace groups a text leaves open. It counts and does not match, so a text that
closes more than it opens has a negative net, and a stray closing brace is made good by a later
opening one. A text `Closes` what it opens if its net is zero. A counter that wraps around cannot
tell that from a net that is a multiple of its period, so `Closes` takes the period into account;
the period zero stands for exact counting (`closes_zero_iff`).

A text is balanced if no closing brace in it comes too early: nowhere have more groups been closed
than opened, and in the end none is open. `braced` makes a group of a text.
-/

set_option autoImplicit false

namespace MessageFeed.Bytes

/-- The number of opening braces less the number of closing ones. -/
def net (text : Bytes) : Int :=
  (text.count openBrace : Int) - (text.count closeBrace : Int)

/-- The empty text leaves nothing open. -/
@[simp] theorem net_nil : net [] = 0 := rfl

/-- Nets add up along a text. -/
@[simp] theorem net_append (a b : Bytes) : net (a ++ b) = net a + net b := by
  simp only [net, List.count_append]
  omega

/-- Whether a text closes as many groups as it opens, if they are counted modulo a period. -/
def Closes (period : Nat) (text : Bytes) : Prop :=
  (period : Int) ∣ net text

instance (period : Nat) (text : Bytes) : Decidable (Closes period text) :=
  inferInstanceAs (Decidable (_ ∣ _))

/-- Modulo zero, groups are counted exactly. -/
@[simp] theorem closes_zero_iff (text : Bytes) : Closes 0 text ↔ net text = 0 :=
  Int.zero_dvd

/-- A text with net zero closes what it opens, whatever the period. -/
theorem closes_of_net_eq_zero (period : Nat) (text : Bytes) (h : net text = 0) :
    Closes period text := by
  unfold Closes
  rw [h]
  exact Int.dvd_zero _

/-- A text that closes exactly what it opens does so modulo every period. -/
theorem Closes.of_zero {text : Bytes} (h : Closes 0 text) (period : Nat) : Closes period text :=
  closes_of_net_eq_zero period text ((closes_zero_iff text).mp h)

/-- Behind a text that closes what it opens, a text closes or does not as it would alone. -/
theorem Closes.append_iff {period : Nat} {a : Bytes} (h : Closes period a) (b : Bytes) :
    Closes period (a ++ b) ↔ Closes period b := by
  unfold Closes
  rw [net_append]
  exact Int.dvd_add_right h

/-- A text that never closes more than it has opened, and closes all that it opens. -/
structure IsBalanced (text : Bytes) : Prop where
  net_nonneg : ∀ front, front <+: text → 0 ≤ net front
  net_eq_zero : net text = 0

instance (text : Bytes) : Decidable (IsBalanced text) :=
  decidable_of_iff ((∀ n ≤ text.length, 0 ≤ net (text.take n)) ∧ net text = 0)
    ⟨fun ⟨hfronts, hnet⟩ => ⟨fun front hfront => by
        rw [List.prefix_iff_eq_take.mp hfront]
        exact hfronts front.length hfront.length_le, hnet⟩,
      fun h => ⟨fun n _ => h.net_nonneg _ (List.take_prefix n text), h.net_eq_zero⟩⟩

/-- A text in braces. -/
def braced (text : Bytes) : Bytes :=
  openBrace :: text ++ [closeBrace]

/-- The net of a text from its first byte on. -/
theorem net_cons (b : UInt8) (text : Bytes) : net (b :: text) = net [b] + net text :=
  net_append [b] text

end MessageFeed.Bytes
