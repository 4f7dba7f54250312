import SecureVote.Text.PyStr
import Mathlib.Data.Nat.Log

/-!
# Python's `json` module

`Json` is the type of values `json.loads` returns; `loads` is CPython's scanner, with the
recursion limit as a parameter, and `dumps` is `json.dumps` with its default ASCII escapes.
An object is a `dict`: its keys are in insertion order, and a repeated key keeps its first
position and its last value.

Numbers without a fraction or exponent are integers of any size up to the digit limit of `int`;
the others are binary64 floats, rounded to nearest even, which overflow to infinity. `NaN`,
`Infinity` and `-Infinity` are accepted.
-/

namespace Py

/-! ### Floats -/

/-- A Python `float`: `(-1)^neg * m * 2^e`, an infinity, or not a number. -/
inductive PyFloat
  | finite (neg : Bool) (m : ℕ) (e : ℤ)
  | inf (neg : Bool)
  | nan
  deriving DecidableEq, Repr

/-- `num / den` rounded to the nearest integer, ties to even. -/
def divRound (num den : ℕ) : ℕ :=
  let q := num / den
  let r := num % den
  if den < 2 * r || (2 * r == den && q % 2 == 1) then q + 1 else q

/-- `(num / den) / 2^e` as a fraction. -/
def shiftFraction (num den : ℕ) (e : ℤ) : ℕ × ℕ :=
  if 0 ≤ e then (num, den * 2 ^ e.toNat) else (num * 2 ^ (-e).toNat, den)

/-- The binary64 number nearest to `num / den`. -/
def floatOfFraction (neg : Bool) (num den : ℕ) : PyFloat :=
  if num = 0 then .finite neg 0 (-1074)
  else
    let e₀ : ℤ := Nat.log2 num - Nat.log2 den - 52
    let f := shiftFraction num den e₀
    -- the quotient lies in `[2^51, 2^54)`: one correction normalizes it
    let e₁ := if f.1 < f.2 * 2 ^ 52 then e₀ - 1 else if f.2 * 2 ^ 53 ≤ f.1 then e₀ + 1 else e₀
    let e := max e₁ (-1074)
    let g := shiftFraction num den e
    let m := divRound g.1 g.2
    let r := if m = 2 ^ 53 then (2 ^ 52, e + 1) else (m, e)
    if 971 < r.2 then .inf neg else .finite neg r.1 r.2

/-- The float of a decimal literal `digits * 10^exp`. -/
def floatOfDecimal (neg : Bool) (digits : ℕ) (exp : ℤ) : PyFloat :=
  if 0 ≤ exp then floatOfFraction neg (digits * 10 ^ exp.toNat) 1
  else floatOfFraction neg digits (10 ^ (-exp).toNat)

/-- The magnitude of a finite float as a fraction. -/
def magnitude (m : ℕ) (e : ℤ) : ℕ × ℕ :=
  if 0 ≤ e then (m * 2 ^ e.toNat, 1) else (m, 2 ^ (-e).toNat)

/-- `num / den` rounded to `k` significant decimal digits, as digits and exponent of ten; `e10`
is the exponent of its leading digit. -/
def toSignificant (num den k : ℕ) (e10 : ℤ) : ℕ × ℤ :=
  let s : ℤ := e10 - (k : ℤ) + 1
  if 0 ≤ s then (divRound num (den * 10 ^ s.toNat), s)
  else (divRound (num * 10 ^ (-s).toNat) den, s)

/-- The decimal exponent of the leading digit of `num / den`. -/
def leadingExponent (num den : ℕ) : ℤ :=
  if den ≤ num then (Nat.log 10 (num / den) : ℤ) else -(Nat.clog 10 ((den + num - 1) / num) : ℤ)

/-- The shortest decimal that rounds back to the float `m * 2^e`, with at most `k` more digits
to try. -/
def shortest (m : ℕ) (e : ℤ) (num den : ℕ) (e10 : ℤ) : ℕ → ℕ × ℤ
  | 0 => toSignificant num den 17 e10
  | k + 1 =>
      let c := toSignificant num den (17 - (k + 1)) e10
      if floatOfDecimal false c.1 c.2 = .finite false m e then c else shortest m e num den e10 k

/-- `float.__repr__` of a positive finite float, from its shortest decimal. -/
def reprDecimal (digits : ℕ) (exp : ℤ) : PyStr :=
  let ds := natRepr 10 digits
  let point : ℤ := ds.length + exp
  if -4 < point ∧ point ≤ 16 then
    if point ≤ 0 then py "0." ++ List.replicate (-point).toNat 48 ++ ds
    else if (ds.length : ℤ) ≤ point then
      ds ++ List.replicate (point - ds.length).toNat 48 ++ py ".0"
    else ds.take point.toNat ++ [46] ++ ds.drop point.toNat
  else
    let x := point - 1
    let mantissa := if ds.length = 1 then ds else ds.take 1 ++ [46] ++ ds.drop 1
    let xs := natRepr 10 x.natAbs
    mantissa ++ [101] ++ (if x < 0 then [45] else [43]) ++ (if xs.length < 2 then 48 :: xs else xs)

/-- How `json.dumps` writes a float. -/
def floatRepr : PyFloat → PyStr
  | .nan => py "NaN"
  | .inf false => py "Infinity"
  | .inf true => py "-Infinity"
  | .finite neg m e =>
      let body :=
        if m = 0 then py "0.0"
        else
          let f := magnitude m e
          let c := shortest m e f.1 f.2 (leadingExponent f.1 f.2) 16
          reprDecimal c.1 c.2
      if neg then 45 :: body else body

/-- `int(float)`: truncation; `none` for an infinity or `nan`, which raise. -/
def PyFloat.trunc : PyFloat → Option ℤ
  | .finite neg m e =>
      let n : ℤ := if 0 ≤ e then m * 2 ^ e.toNat else (m / 2 ^ (-e).toNat : ℕ)
      some (if neg then -n else n)
  | _ => none

/-! ### Values -/

/-- A parsed JSON value. -/
inductive Json
  | null
  | bool (b : Bool)
  | int (n : ℤ)
  | float (f : PyFloat)
  | str (s : PyStr)
  | arr (xs : List Json)
  | obj (kvs : List (PyStr × Json))

/-- `d[k] = v` on the items of a `dict`. -/
def dictSet {β : Type} (kvs : List (PyStr × β)) (k : PyStr) (v : β) : List (PyStr × β) :=
  if kvs.any (·.1 = k) then kvs.map fun e => if e.1 = k then (k, v) else e else kvs ++ [(k, v)]

/-- `d.get(k)` on the items of a `dict`. -/
def dictGet {β : Type} (kvs : List (PyStr × β)) (k : PyStr) : Option β :=
  (kvs.find? (·.1 = k)).map (·.2)

/-- `d.get(k)` of JSON values, with `None` for a key that is missing. -/
def getOrNone (kvs : List (PyStr × Json)) (k : PyStr) : Json := (dictGet kvs k).getD .null

/-- `d.pop(k, None)`: what is left. -/
def dictPop {β : Type} (kvs : List (PyStr × β)) (k : PyStr) : List (PyStr × β) :=
  kvs.filter fun e => e.1 ≠ k

/-- The truth value of a JSON value. -/
def Json.truthy : Json → Bool
  | .null => false
  | .bool b => b
  | .int n => n ≠ 0
  | .float (.finite _ m _) => m ≠ 0
  | .float _ => true
  | .str s => !s.isEmpty
  | .arr xs => !xs.isEmpty
  | .obj kvs => !kvs.isEmpty

/-- The value of a number as a fraction with a positive denominator; `bool` is a number too. -/
def Json.ratio : Json → Option (ℤ × ℕ)
  | .bool b => some (if b then 1 else 0, 1)
  | .int n => some (n, 1)
  | .float (.finite neg m e) =>
      let f := magnitude m e
      some (if neg then -(f.1 : ℤ) else f.1, f.2)
  | _ => none

/-- `==` of two values without parts. -/
def Json.leafEq : Json → Json → Bool
  | .null, .null => true
  | .str s, .str t => s == t
  | .float (.inf a), .float (.inf b) => a == b
  | x, y =>
    match x.ratio, y.ratio with
    | some a, some b => a.1 * b.2 == b.1 * a.2
    | _, _ => false

mutual

/-- Equality of two parts of containers: the same object, or equal ones. There is one object for
every `NaN` that is read. -/
def Json.same : Json → Json → Bool
  | .arr xs, y =>
    match y with
    | .arr ys => sameElements xs ys
    | _ => false
  | .obj kvs, y =>
    match y with
    | .obj kvs' => kvs.length == kvs'.length && sameItems kvs kvs'
    | _ => false
  | .float .nan, y => match y with | .float .nan => true | _ => false
  | x, y => x.leafEq y

/-- Lists are equal element by element. -/
def sameElements : List Json → List Json → Bool
  | [], ys => ys.isEmpty
  | x :: xs, ys =>
    match ys with
    | [] => false
    | y :: ys => x.same y && sameElements xs ys

/-- The items of one `dict` are those of another. -/
def sameItems : List (PyStr × Json) → List (PyStr × Json) → Bool
  | [], _ => true
  | (k, v) :: kvs, kvs' =>
    (match dictGet kvs' k with
      | some w => v.same w
      | none => false) && sameItems kvs kvs'

end

/-- `x == y`. -/
def pyEq : Json → Json → Bool
  | .float .nan, _ => false
  | x, y => x.same y

/-- The exceptions `int(x)` raises. -/
inductive IntError
  | valueError
  | typeError
  | overflowError
  deriving DecidableEq, Repr

/-- `int(x)` of a JSON value. -/
def Json.toInt : Json → Except IntError ℤ
  | .bool b => .ok (if b then 1 else 0)
  | .int n => .ok n
  | .float (.inf _) => .error .overflowError
  | .float f =>
      match f.trunc with
      | some n => .ok n
      | none => .error .valueError
  | .str s =>
      match Py.int 10 s with
      | some n => .ok n
      | none => .error .valueError
  | .null | .arr _ | .obj _ => .error .typeError

/-- The value is an infinite number. -/
def Json.isInfinite : Json → Bool
  | .float (.inf _) => true
  | _ => false

/-- An `OverflowError` of `int` comes from an infinite number, and from nothing else. -/
theorem toInt_eq_overflow {j : Json} : j.toInt = .error .overflowError ↔ j.isInfinite = true := by
  constructor
  · intro h
    unfold Json.toInt at h
    repeat' split at h
    all_goals cases h
    rfl
  · intro h
    unfold Json.isInfinite at h
    split at h
    · rfl
    · cases h

/-- `int(x, 16)` of a JSON value. -/
def Json.toInt16 : Json → Except IntError ℤ
  | .str s =>
      match Py.int 16 s with
      | some n => .ok n
      | none => .error .valueError
  | _ => .error .typeError

/-! ### `json.loads` -/

/-- How `json.loads` fails: `ValueError` (`JSONDecodeError`), or `RecursionError`. -/
inductive LoadsError
  | value
  | recursion
  deriving DecidableEq, Repr

/-- White space between JSON tokens. -/
def isJsonSpace (c : ℕ) : Bool := c == 32 || c == 9 || c == 10 || c == 13

/-- Skip white space. -/
def skipSpace (s : PyStr) : PyStr := s.dropWhile isJsonSpace

/-- The value of four hex digits. -/
def hex4 (a b c d : ℕ) : Option ℕ :=
  match hexValue a, hexValue b, hexValue c, hexValue d with
  | some w, some x, some y, some z => some (((w * 16 + x) * 16 + y) * 16 + z)
  | _, _, _, _ => none

/-- A one-character escape. -/
def escapeValue (c : ℕ) : Option ℕ :=
  if c = 34 || c = 92 || c = 47 then some c
  else if c = 98 then some 8
  else if c = 102 then some 12
  else if c = 110 then some 10
  else if c = 114 then some 13
  else if c = 116 then some 9
  else none

/-- The rest of a string literal after its opening quote, and what follows its closing one. -/
def scanString : PyStr → Except LoadsError (PyStr × PyStr)
  | [] => .error .value
  | 34 :: s => .ok ([], s)
  | 92 :: 117 :: a :: b :: c :: d :: 92 :: 117 :: e :: f :: g :: h :: s =>
      match hex4 a b c d, hex4 e f g h with
      | some u, some v =>
          if 0xD800 ≤ u && u ≤ 0xDBFF && 0xDC00 ≤ v && v ≤ 0xDFFF then
            (scanString s).map fun r => ((0x10000 + (u - 0xD800) * 1024 + (v - 0xDC00)) :: r.1, r.2)
          else
            (scanString (92 :: 117 :: e :: f :: g :: h :: s)).map fun r => (u :: r.1, r.2)
      | _, _ => .error .value
  | 92 :: 117 :: a :: b :: c :: d :: s =>
      match hex4 a b c d with
      | some u => (scanString s).map fun r => (u :: r.1, r.2)
      | none => .error .value
  | [92] => .error .value
  | 92 :: c :: s =>
      match escapeValue c with
      | some u => (scanString s).map fun r => (u :: r.1, r.2)
      | none => .error .value
  | c :: s => if c < 32 then .error .value else (scanString s).map fun r => (c :: r.1, r.2)

/-- An ASCII digit. -/
def isDigit (c : ℕ) : Bool := 48 ≤ c && c ≤ 57

/-- The value of a run of ASCII digits. -/
def digitsValue (ds : PyStr) : ℕ := ds.foldl (fun n c => n * 10 + (c - 48)) 0

/-- The integer part of a number: `0`, or digits that do not start with `0`. -/
def scanIntPart : PyStr → Option (PyStr × PyStr)
  | [] => none
  | c :: s =>
      if c = 48 then some ([48], s)
      else if isDigit c then some (c :: s.takeWhile isDigit, s.dropWhile isDigit)
      else none

/-- The fraction of a number, empty when there is none. -/
def scanFraction (s : PyStr) : PyStr × PyStr :=
  match s with
  | 46 :: r =>
      let ds := r.takeWhile isDigit
      if ds.isEmpty then ([], s) else (ds, r.dropWhile isDigit)
  | _ => ([], s)

/-- The sign of an exponent and what follows it. -/
def scanExpSign : PyStr → Bool × PyStr
  | 45 :: r => (true, r)
  | 43 :: r => (false, r)
  | r => (false, r)

/-- The exponent of a number, `none` when there is none. -/
def scanExponent (s : PyStr) : Option ℤ × PyStr :=
  match s with
  | c :: r =>
      if c = 101 || c = 69 then
        let sr := scanExpSign r
        let ds := sr.2.takeWhile isDigit
        if ds.isEmpty then (none, s)
        else
          let n : ℤ := digitsValue ds
          (some (if sr.1 then -n else n), sr.2.dropWhile isDigit)
      else (none, s)
  | [] => (none, s)

/-- A number after its optional minus sign. -/
def scanNumber (neg : Bool) (s : PyStr) : Except LoadsError (Json × PyStr) :=
  match scanIntPart s with
  | none => .error .value
  | some (ds, r) =>
      let fr := scanFraction r
      let ex := scanExponent fr.2
      if fr.1.isEmpty && ex.1.isNone then
        if maxStrDigits < ds.length then .error .value
        else
          let n : ℤ := digitsValue ds
          .ok (.int (if neg then -n else n), ex.2)
      else
        .ok (.float (floatOfDecimal neg (digitsValue (ds ++ fr.1))
          (ex.1.getD 0 - (fr.1.length : ℤ))), ex.2)

/-- Whether `s` starts with `t`, and what follows. -/
def dropLiteral (t s : PyStr) : Option PyStr :=
  if t.isPrefixOf s then some (s.drop t.length) else none

/-- A literal name or a number. -/
def scanAtom (s : PyStr) : Except LoadsError (Json × PyStr) :=
  match dropLiteral (py "null") s, dropLiteral (py "true") s, dropLiteral (py "false") s,
    dropLiteral (py "NaN") s, dropLiteral (py "Infinity") s, dropLiteral (py "-Infinity") s with
  | some r, _, _, _, _, _ => .ok (.null, r)
  | _, some r, _, _, _, _ => .ok (.bool true, r)
  | _, _, some r, _, _, _ => .ok (.bool false, r)
  | _, _, _, some r, _, _ => .ok (.float .nan, r)
  | _, _, _, _, some r, _ => .ok (.float (.inf false), r)
  | _, _, _, _, _, some r => .ok (.float (.inf true), r)
  | _, _, _, _, _, _ =>
      match s with
      | 45 :: r => scanNumber true r
      | _ => scanNumber false s

mutual

/-- A value; `fuel` bounds the calls, `depth` the nesting of containers. -/
def scanValue : ℕ → ℕ → PyStr → Except LoadsError (Json × PyStr)
  | 0, _, _ => .error .value
  | fuel + 1, depth, s =>
    match s with
    | 34 :: r => (scanString r).map fun x => (.str x.1, x.2)
    | 123 :: r =>
        match depth with
        | 0 => .error .recursion
        | depth + 1 =>
          match skipSpace r with
          | 125 :: r' => .ok (.obj [], r')
          | r' => (scanMembers fuel depth [] r').map fun x => (.obj x.1, x.2)
    | 91 :: r =>
        match depth with
        | 0 => .error .recursion
        | depth + 1 =>
          match skipSpace r with
          | 93 :: r' => .ok (.arr [], r')
          | r' => (scanElements fuel depth r').map fun x => (.arr x.1, x.2)
    | _ => scanAtom s

/-- The elements of an array after `[` and white space. -/
def scanElements : ℕ → ℕ → PyStr → Except LoadsError (List Json × PyStr)
  | 0, _, _ => .error .value
  | fuel + 1, depth, s =>
    match scanValue fuel depth s with
    | .error e => .error e
    | .ok (v, r) =>
      match skipSpace r with
      | 93 :: r' => .ok ([v], r')
      | 44 :: r' => (scanElements fuel depth (skipSpace r')).map fun x => (v :: x.1, x.2)
      | _ => .error .value

/-- The members of an object after `{` and white space, added to the items read so far. -/
def scanMembers :
    ℕ → ℕ → List (PyStr × Json) → PyStr → Except LoadsError (List (PyStr × Json) × PyStr)
  | 0, _, _, _ => .error .value
  | fuel + 1, depth, kvs, s =>
    match s with
    | 34 :: r =>
      match scanString r with
      | .error e => .error e
      | .ok (k, r₁) =>
        match skipSpace r₁ with
        | 58 :: r₂ =>
          match scanValue fuel depth (skipSpace r₂) with
          | .error e => .error e
          | .ok (v, r₃) =>
            match skipSpace r₃ with
            | 125 :: r₄ => .ok (dictSet kvs k v, r₄)
            | 44 :: r₄ => scanMembers fuel depth (dictSet kvs k v) (skipSpace r₄)
            | _ => .error .value
        | _ => .error .value
    | _ => .error .value

end

/-- `json.loads` of a `str`, with the interpreter's recursion limit. -/
def loads (limit : ℕ) (s : PyStr) : Except LoadsError Json :=
  match s with
  | 0xFEFF :: _ => .error .value
  | _ =>
    match scanValue (2 * s.length + 2) limit (skipSpace s) with
    | .error e => .error e
    | .ok (v, r) => if (skipSpace r).isEmpty then .ok v else .error .value

section Equations

-- the equations of the scanner are generated here, before the proofs that rewrite with them
attribute [local simp] scanString scanValue scanElements scanMembers

end Equations

/-! ### `json.dumps` -/

/-- `\uXXXX`. -/
def escapeUnit (u : ℕ) : PyStr :=
  [92, 117, digitChar (u / 4096 % 16), digitChar (u / 256 % 16), digitChar (u / 16 % 16),
    digitChar (u % 16)]

/-- One character of a string literal, with `ensure_ascii`. -/
def escapeChar (c : ℕ) : PyStr :=
  if c = 34 then py "\\\""
  else if c = 92 then py "\\\\"
  else if c = 10 then py "\\n"
  else if c = 13 then py "\\r"
  else if c = 9 then py "\\t"
  else if c = 8 then py "\\b"
  else if c = 12 then py "\\f"
  else if 32 ≤ c && c ≤ 126 then [c]
  else if c < 0x10000 then escapeUnit c
  else
    escapeUnit (0xD800 + (c - 0x10000) / 1024) ++ escapeUnit (0xDC00 + (c - 0x10000) % 1024)

/-- A string literal. -/
def dumpStr (s : PyStr) : PyStr := 34 :: s.flatMap escapeChar ++ [34]

/-- The order of `str`, by code points. -/
def strLe : PyStr → PyStr → Bool
  | [], _ => true
  | _ :: _, [] => false
  | a :: as, b :: bs => a < b || (a == b && strLe as bs)

mutual

/-- `json.dumps(v, sort_keys=True, separators=(',', ':'))`, with the keys sorted. -/
def dumps : Json → PyStr
  | .null => py "null"
  | .bool true => py "true"
  | .bool false => py "false"
  | .int n => intRepr n
  | .float f => floatRepr f
  | .str s => dumpStr s
  | .arr xs => 91 :: dumpElements xs ++ [93]
  | .obj kvs => 123 :: dumpMembers ((dumpItems kvs).mergeSort fun a b => strLe a.1 b.1) ++ [125]

/-- The elements of an array, separated by commas. -/
def dumpElements : List Json → PyStr
  | [] => []
  | [x] => dumps x
  | x :: xs => dumps x ++ 44 :: dumpElements xs

/-- Each item of a `dict` with its value written out. -/
def dumpItems : List (PyStr × Json) → List (PyStr × PyStr)
  | [] => []
  | (k, v) :: kvs => (k, dumps v) :: dumpItems kvs

/-- The written items of an object, separated by commas. -/
def dumpMembers : List (PyStr × PyStr) → PyStr
  | [] => []
  | [(k, v)] => dumpStr k ++ 58 :: v
  | (k, v) :: kvs => dumpStr k ++ 58 :: v ++ 44 :: dumpMembers kvs

end

end Py
