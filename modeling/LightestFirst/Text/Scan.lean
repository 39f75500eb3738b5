-- Small readers on the characters of a text: a run of characters of one kind, a given word, digits.
namespace LightestFirst
namespace Text

-- The characters in front that satisfy `p`, put before those in `front` (which stand reversed),
-- and the rest.
def spanOnto (p : Char → Bool) (front : List Char) : List Char → List Char × List Char
  | [] => (front.reverse, [])
  | c :: rest => if p c then spanOnto p (c :: front) rest else (front.reverse, c :: rest)

def span (p : Char → Bool) (text : List Char) : List Char × List Char := spanOnto p [] text

def skip (p : Char → Bool) : List Char → List Char
  | [] => []
  | c :: rest => if p c then skip p rest else c :: rest

def after? (word text : List Char) : Option (List Char) :=
  match word, text with
  | [], text => some text
  | _ :: _, [] => none
  | expected :: word, c :: rest => if c = expected then after? word rest else none

def digit? (base : Nat) (c : Char) : Option Nat :=
  let value :=
    if '0' ≤ c ∧ c ≤ '9' then some (c.toNat - '0'.toNat)
    else if 'a' ≤ c ∧ c ≤ 'f' then some (c.toNat - 'a'.toNat + 10)
    else if 'A' ≤ c ∧ c ≤ 'F' then some (c.toNat - 'A'.toNat + 10)
    else none
  value.filter (· < base)

def isDigit (base : Nat) (c : Char) : Bool := (digit? base c).isSome

-- A number with one digit more behind it. A character that is none changes nothing.
def withDigit (base value : Nat) (c : Char) : Nat :=
  match digit? base c with
  | some d => value * base + d
  | none => value

def number (base : Nat) (digits : List Char) : Nat := digits.foldl (withDigit base) 0

-- However many digits there are, none is looked at once the number has come to `bound`.
def numberBelow? (bound base : Nat) (digits : List Char) : Option Nat :=
  digits.foldlM (fun value c =>
    if withDigit base value c < bound then some (withDigit base value c) else none) 0

def character? (code : Nat) : Option Char :=
  if code.isValidChar then some (Char.ofNat code) else none

theorem spanOnto_eq (p : Char → Bool) (front text : List Char) :
    spanOnto p front text = (front.reverse ++ text.takeWhile p, text.dropWhile p) := by
  induction text generalizing front with
  | nil => simp [spanOnto]
  | cons c rest ih => by_cases held : p c <;> simp [spanOnto, held, ih]

theorem span_eq (p : Char → Bool) (text : List Char) :
    span p text = (text.takeWhile p, text.dropWhile p) := by
  simp [span, spanOnto_eq]

theorem le_withDigit (base value : Nat) (c : Char) (positive : 0 < base) :
    value ≤ withDigit base value c := by
  unfold withDigit
  split
  · exact Nat.le_add_right_of_le (Nat.le_mul_of_pos_right value positive)
  · exact Nat.le_refl value

theorem le_foldl_withDigit (base value : Nat) (digits : List Char) (positive : 0 < base) :
    value ≤ digits.foldl (withDigit base) value := by
  induction digits generalizing value with
  | nil => exact Nat.le_refl value
  | cons c rest ih => exact Nat.le_trans (le_withDigit base value c positive) (ih _)

theorem numberBelow?_eq (bound base : Nat) (digits : List Char) (positive : 0 < base)
    (room : 0 < bound) :
    numberBelow? bound base digits =
      if number base digits < bound then some (number base digits) else none := by
  unfold numberBelow? number
  generalize 0 = value at room
  induction digits generalizing value with
  | nil => simp [room]
  | cons c rest ih =>
    rw [List.foldlM_cons, List.foldl_cons]
    by_cases held : withDigit base value c < bound
    · simpa [held] using ih _ held
    · have beyond := le_foldl_withDigit base (withDigit base value c) rest positive
      rw [if_neg held, if_neg (by omega)]
      rfl

end Text
end LightestFirst
