/-!
# Sources of random draws

A draw is a number below `2 ^ 53`; divided by that it is a random number of the unit interval. What a
source is made of is left open.
-/

namespace QuantumRelay

/-- The number of draws, which is `2 ^ 53`. -/
abbrev drawCount : Nat := 9007199254740992

/-- A random number of the unit interval, in units of `2 ^ -53`. -/
abbrev Draw : Type := Fin drawCount

/-- The draw of a number, which should be below `2 ^ 53`. -/
def Draw.ofNumber (n : Nat) : Draw := ⟨n % drawCount, Nat.mod_lt n (by decide)⟩

/-- A supply of draws. -/
class DrawSource (σ : Type) where
  next : σ → Draw × σ

/-- A given list of draws, and zeros after it. -/
structure GivenDraws where
  left : List Draw

instance : DrawSource GivenDraws where
  next
    | ⟨[]⟩ => (0, ⟨[]⟩)
    | ⟨k :: rest⟩ => (k, ⟨rest⟩)

end QuantumRelay
