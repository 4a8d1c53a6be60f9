import Solfege.Binary64.Basic

/-! Sums, products and quotients of binary64 values, and a product and a sum in one step: the exact
result, rounded once. An exact zero sum is negative only when both addends are; a product or
quotient has the sign that the operands' signs give. Invalid combinations (infinity less infinity,
zero times infinity, zero by zero, infinity by infinity) are not a number. -/
namespace Solfege.Binary64

/-- The value nearest to a signed number of units, an exact zero taking the given sign. -/
def ofUnits (units : Int) (zeroNegative : Bool) : Binary64 :=
  if units = 0 then zero zeroNegative else ofQuotient (units < 0) units.natAbs 1

def neg : Binary64 → Binary64
  | .nan => .nan
  | .infinite s => .infinite (!s)
  | .finite s n h => .finite (!s) n h

def add : Binary64 → Binary64 → Binary64
  | .nan, _ => .nan
  | _, .nan => .nan
  | .infinite s, .infinite t => if s = t then .infinite s else .nan
  | .infinite s, .finite .. => .infinite s
  | .finite .., .infinite t => .infinite t
  | .finite s a _, .finite t b _ => ofUnits (signed s a + signed t b) (s && t)

def sub (x y : Binary64) : Binary64 := add x (neg y)

def mul : Binary64 → Binary64 → Binary64
  | .nan, _ => .nan
  | _, .nan => .nan
  | .infinite s, .infinite t => .infinite (s ^^ t)
  | .infinite s, .finite t b _ => if b = 0 then .nan else .infinite (s ^^ t)
  | .finite s a _, .infinite t => if a = 0 then .nan else .infinite (s ^^ t)
  | .finite s a _, .finite t b _ => ofQuotient (s ^^ t) (a * b) oneUnits

def div : Binary64 → Binary64 → Binary64
  | .nan, _ => .nan
  | _, .nan => .nan
  | .infinite _, .infinite _ => .nan
  | .infinite s, .finite t _ _ => .infinite (s ^^ t)
  | .finite s _ _, .infinite t => zero (s ^^ t)
  | .finite s a _, .finite t b _ =>
    if b = 0 then (if a = 0 then .nan else .infinite (s ^^ t))
    else ofQuotient (s ^^ t) (a * oneUnits) b

/-- The product of two values plus a third, rounded only at the end. -/
def mulAdd : Binary64 → Binary64 → Binary64 → Binary64
  | .finite s a _, .finite t b _, .finite u c _ =>
    let total := signed (s ^^ t) (a * b) + signed u (c * oneUnits)
    if total = 0 then zero ((s ^^ t) && u) else ofQuotient (total < 0) total.natAbs oneUnits
  | x, y, z => add (mul x y) z

instance : Neg Binary64 := ⟨neg⟩
instance : Add Binary64 := ⟨add⟩
instance : Sub Binary64 := ⟨sub⟩
instance : Mul Binary64 := ⟨mul⟩
instance : Div Binary64 := ⟨div⟩

end Solfege.Binary64
