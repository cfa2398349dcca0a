/-
# Escapes

String constants keep their escapes as they are written, for a reader behind the lowering. This
is that reader: it goes over a text once, from the left, and remembers what it has read of an
escape. Only an octal escape has no length of its own. It ends after three digits or before
the first character that is no octal digit, so it is the only escape that is complete and can
still go on.
-/

import Mathlib.Data.List.Basic
import Mathlib.Data.List.Induction
import TreeLowering.Number.Radix

namespace TreeLowering.Text

open TreeLowering.Number

/-! ## One pass over a text -/

/-- What has been read of an escape. -/
inductive Pending where
  /-- No escape has been opened. -/
  | clear
  /-- A backslash. -/
  | opened
  /-- Octal digits with their value, and how many more there may be. -/
  | octal (room value : ℕ)
  /-- Hexadecimal digits with their value, and how many more there must be. -/
  | hexadecimal (missing value : ℕ)
  /-- The letter that announces a name. -/
  | nameMark
  /-- The letters of a name, the last one first. -/
  | name (letters : List Char)
  deriving DecidableEq, Repr

namespace Pending

/-- The characters that have a meaning of their own behind a backslash. -/
def meanings : List (Char × ℕ) := [
  ('\\', 92), ('\'', 39), ('"', 34), ('a', 7), ('b', 8), ('f', 12), ('n', 10), ('r', 13),
  ('t', 9), ('v', 11)]

/-- A character outside of an escape. -/
def start (c : Char) : List ℕ × Pending :=
  if c = '\\' then ([], opened) else ([c.toNat], clear)

/-- The character behind a backslash. The end of a line is left out together with the backslash,
and a backslash before a character without a meaning stands for itself. -/
def choose (c : Char) : List ℕ × Pending :=
  match digit? 8 c with
  | some d => ([], octal 2 d)
  | none =>
    if c = '\n' then ([], clear)
    else if c = 'x' then ([], hexadecimal 2 0)
    else if c = 'u' then ([], hexadecimal 4 0)
    else if c = 'U' then ([], hexadecimal 8 0)
    else if c = 'N' then ([], nameMark)
    else match meanings.lookup c with
      | some point => ([point], clear)
      | none => (['\\'.toNat, c.toNat], clear)

/-- The character behind an octal digit. If it is no further digit of the escape, the escape has
ended before it. -/
def readOctal (room value : ℕ) (c : Char) : List ℕ × Pending :=
  match room, digit? 8 c with
  | room + 1, some d => ([], octal room (8 * value + d))
  | _, _ => (value :: (start c).1, (start c).2)

/-- One more hexadecimal digit. The last one completes a code point. -/
def readHexadecimal (missing value d : ℕ) : Option (List ℕ × Pending) :=
  if 1 < missing then some ([], hexadecimal (missing - 1) (16 * value + d))
  else if 16 * value + d < 0x110000 then some ([16 * value + d], clear)
  else none

/-- The code points that are complete with the next character, and what is pending then. -/
def read (named : List Char → Option ℕ) : Pending → Char → Option (List ℕ × Pending)
  | clear, c => some (start c)
  | opened, c => some (choose c)
  | octal room value, c => some (readOctal room value c)
  | hexadecimal missing value, c => (digit? 16 c).bind (readHexadecimal missing value)
  | nameMark, c => if c = '{' then some ([], name []) else none
  | name letters, c =>
    if c = '}' then (named letters.reverse).map fun point => ([point], clear)
    else some ([], name (c :: letters))

/-- What is pending may end here if it is nothing or an octal escape. -/
def finish : Pending → Option (List ℕ)
  | clear => some []
  | octal _ value => some [value]
  | _ => none

/-- An octal escape that another digit may go on with. -/
def hasRoom : Pending → Bool
  | octal (_ + 1) _ => true
  | _ => false

theorem hasRoom_iff {p : Pending} : p.hasRoom ↔ ∃ room value, p = octal (room + 1) value := by
  constructor
  · intro h
    rw [hasRoom.eq_def] at h
    split at h
    case h_1 room value => exact ⟨room, value, rfl⟩
    case h_2 => cases h
  · rintro ⟨room, value, rfl⟩
    rfl

end Pending

/-- The code points that are complete within a text, and what is pending behind it. -/
def scan (named : List Char → Option ℕ) : Pending → List Char → Option (List ℕ × Pending)
  | p, [] => some ([], p)
  | p, c :: rest => (p.read named c).bind fun step =>
    (scan named step.2 rest).map fun found => (step.1 ++ found.1, found.2)

/-- The code points of a text behind what is pending. -/
def decodeFrom (named : List Char → Option ℕ) (p : Pending) (text : List Char) :
    Option (List ℕ) :=
  (scan named p text).bind fun found => found.2.finish.map (found.1 ++ ·)

/-- The code points that a text with escapes stands for, if all its escapes are complete. The
names of code points are looked up in `named`. -/
def decode (named : List Char → Option ℕ) (text : List Char) : Option (List ℕ) :=
  decodeFrom named .clear text

variable {named : List Char → Option ℕ} {p q : Pending} {a b text : List Char}
  {xs ys out : List ℕ} {c : Char} {room value d : ℕ}

theorem scan_append (p : Pending) (a b : List Char) : scan named p (a ++ b) =
    (scan named p a).bind fun found =>
      (scan named found.2 b).map fun behind => (found.1 ++ behind.1, behind.2) := by
  induction a generalizing p with
  | nil => simp [scan]
  | cons c rest ih =>
      rw [List.cons_append, scan, scan]
      cases p.read named c with
      | none => rfl
      | some step => simp [ih, Option.map_bind, Option.bind_map, Function.comp_def]

/-- What a text stands for goes on with what is pending in the middle of it. -/
theorem decodeFrom_append (p : Pending) (a b : List Char) : decodeFrom named p (a ++ b) =
    (scan named p a).bind fun found => (decodeFrom named found.2 b).map (found.1 ++ ·) := by
  rw [decodeFrom, scan_append]
  cases scan named p a with
  | none => rfl
  | some found =>
      simp [decodeFrom, Option.bind_map, Option.map_bind, Function.comp_def]

theorem decodeFrom_cons (p : Pending) (c : Char) (rest : List Char) :
    decodeFrom named p (c :: rest) = (p.read named c).bind fun step =>
      (decodeFrom named step.2 rest).map (step.1 ++ ·) := by
  have happend : decodeFrom named p (c :: rest) =
      (scan named p [c]).bind fun found => (decodeFrom named found.2 rest).map (found.1 ++ ·) :=
    decodeFrom_append p [c] rest
  rw [happend, scan]
  cases p.read named c <;> simp [scan]

theorem exists_scan_of_decode (h : decode named text = some xs) :
    ∃ found q points, scan named .clear text = some (found, q) ∧ q.finish = some points ∧
      xs = found ++ points := by
  obtain ⟨⟨found, q⟩, hscan, hfinish⟩ := Option.bind_eq_some_iff.mp h
  obtain ⟨points, hpoints, hxs⟩ := Option.map_eq_some_iff.mp hfinish
  exact ⟨found, q, points, hscan, hpoints, hxs.symm⟩

theorem eq_clear_or_octal_of_finish (h : q.finish = some xs) :
    q = .clear ∧ xs = [] ∨ ∃ room value, q = .octal room value ∧ xs = [value] := by
  cases q with
  | clear => exact .inl ⟨rfl, (Option.some.inj h).symm⟩
  | octal room value => exact .inr ⟨room, value, rfl, (Option.some.inj h).symm⟩
  | _ => cases h

/-! ## Octal escapes at the end of a text -/

/-- A text ends in an octal escape that has room for another digit. -/
def EndsInOctal (named : List Char → Option ℕ) (text : List Char) : Prop :=
  ∃ front digits, text = front ++ '\\' :: digits ∧ (decode named front).isSome ∧
    (digits.length = 1 ∨ digits.length = 2) ∧ ∀ c ∈ digits, (digit? 8 c).isSome

/-- A text begins with an octal digit. -/
def BeginsWithOctal (text : List Char) : Prop :=
  ∃ c ∈ text.head?, (digit? 8 c).isSome

theorem ne_backslash_of_digit? (h : digit? 8 c = some d) : c ≠ '\\' := by
  rintro rfl
  have hnone : digit? 8 '\\' = none := by decide
  cases hnone.symm.trans h

/-- Behind a backslash an octal escape is opened by its first digit only. -/
theorem choose_cases (c : Char) : (Pending.choose c).2 ≠ .opened ∧
    ∀ room value, (Pending.choose c).2 = .octal room value → room = 2 ∧ (digit? 8 c).isSome := by
  rw [Pending.choose]
  split
  case h_1 d hd =>
    refine ⟨Pending.noConfusion, fun room value h => ?_⟩
    obtain ⟨rfl, -⟩ := Pending.octal.inj h
    exact ⟨rfl, by simp [hd]⟩
  case h_2 =>
    repeat' split
    all_goals exact ⟨Pending.noConfusion, fun _ _ h => Pending.noConfusion h⟩

theorem start_cases (c : Char) : ((Pending.start c).2 = .opened → c = '\\') ∧
    ∀ room value, (Pending.start c).2 ≠ .octal room value := by
  rw [Pending.start]
  split
  case isTrue h => exact ⟨fun _ => h, fun _ _ => Pending.noConfusion⟩
  case isFalse => exact ⟨Pending.noConfusion, fun _ _ => Pending.noConfusion⟩

/-- What one character can do. The escapes of a known length lead to no octal escape and to no
backslash that opens one. -/
theorem read_cases (h : p.read named c = some (out, q)) :
    p.finish.isSome ∧ q = (Pending.start c).2 ∨
    p = .opened ∧ q = (Pending.choose c).2 ∨
    (∃ room value, p = .octal (room + 1) value ∧ (digit? 8 c).isSome ∧
      ∃ value', q = .octal room value') ∨
    q ≠ .opened ∧ ∀ room value, q ≠ .octal room value := by
  cases p with
  | clear => exact .inl ⟨rfl, (congrArg Prod.snd (Option.some.inj h)).symm⟩
  | opened => exact .inr (.inl ⟨rfl, (congrArg Prod.snd (Option.some.inj h)).symm⟩)
  | octal had value =>
      obtain rfl : (Pending.readOctal had value c).2 = q := congrArg Prod.snd (Option.some.inj h)
      rw [Pending.readOctal.eq_def]
      split
      case h_1 room d hd => exact .inr (.inr (.inl ⟨room, value, rfl, by simp [hd], _, rfl⟩))
      case h_2 => exact .inl ⟨rfl, rfl⟩
  | hexadecimal missing value =>
      obtain ⟨d, -, hread⟩ := Option.bind_eq_some_iff.mp h
      rw [Pending.readHexadecimal] at hread
      split_ifs at hread <;> cases hread <;> simp
  | nameMark =>
      rw [Pending.read] at h
      split_ifs at h
      cases h
      simp
  | name letters =>
      rw [Pending.read] at h
      split_ifs at h
      · obtain ⟨point, -, hread⟩ := Option.map_eq_some_iff.mp h
        cases hread
        simp
      · cases h
        simp

/-- A backslash opens an escape only where the one before it may end. -/
theorem read_eq_opened (h : p.read named c = some (out, .opened)) :
    c = '\\' ∧ p.finish.isSome := by
  rcases read_cases h with ⟨hfinish, hq⟩ | ⟨-, hq⟩ | ⟨_, _, -, -, _, hq⟩ | ⟨hq, -⟩
  · exact ⟨(start_cases c).1 hq.symm, hfinish⟩
  · exact absurd hq.symm (choose_cases c).1
  · cases hq
  · exact absurd rfl hq

/-- An octal escape is pending behind one of its digits, with room for one digit less than
before. -/
theorem read_eq_octal (h : p.read named c = some (out, .octal room value)) :
    (digit? 8 c).isSome ∧ (p = .opened ∧ room = 2 ∨ ∃ before, p = .octal (room + 1) before) := by
  rcases read_cases h with ⟨-, hq⟩ | ⟨hp, hq⟩ | ⟨_, before, hp, hd, _, hq⟩ | ⟨-, hq⟩
  · exact absurd hq.symm ((start_cases c).2 room value)
  · obtain ⟨hroom, hd⟩ := (choose_cases c).2 room value hq.symm
    exact ⟨hd, .inl ⟨hp, hroom⟩⟩
  · obtain ⟨rfl, -⟩ := Pending.octal.inj hq
    exact ⟨hd, .inr ⟨before, hp⟩⟩
  · exact absurd rfl (hq room value)

theorem exists_read_of_scan_concat (h : scan named p (text ++ [c]) = some (out, q)) :
    ∃ found p' step, scan named p text = some (found, p') ∧ p'.read named c = some (step, q) := by
  rw [scan_append] at h
  obtain ⟨⟨found, p'⟩, hscan, hbehind⟩ := Option.bind_eq_some_iff.mp h
  obtain ⟨⟨step, q'⟩, hlast, hsame⟩ := Option.map_eq_some_iff.mp hbehind
  obtain ⟨-, rfl⟩ := Prod.mk.inj hsame
  obtain ⟨⟨step', q''⟩, hread, hnil⟩ := Option.bind_eq_some_iff.mp hlast
  obtain ⟨-, rfl⟩ := Prod.mk.inj (Option.some.inj hnil)
  exact ⟨found, p', step', hscan, hread⟩

theorem isSome_decode_of_scan (h : scan named .clear text = some (out, p))
    (hfinish : p.finish.isSome) : (decode named text).isSome := by
  rw [decode, decodeFrom, h, Option.bind_some, Option.isSome_map]
  exact hfinish

theorem exists_of_scan_opened (h : scan named .clear text = some (out, .opened)) :
    ∃ front, text = front ++ ['\\'] ∧ (decode named front).isSome := by
  rcases List.eq_nil_or_concat text with rfl | ⟨front, c, rfl⟩
  · cases h
  · rw [List.concat_eq_append] at h ⊢
    obtain ⟨found, p, step, hscan, hread⟩ := exists_read_of_scan_concat h
    obtain ⟨rfl, hfinish⟩ := read_eq_opened hread
    exact ⟨front, rfl, isSome_decode_of_scan hscan hfinish⟩

/-- The digits of a pending octal escape stand behind the backslash that opened it. -/
theorem exists_of_scan_octal (h : scan named .clear text = some (out, .octal room value)) :
    ∃ front digits, text = front ++ '\\' :: digits ∧ (decode named front).isSome ∧
      (0 < digits.length ∧ digits.length + room = 3) ∧ ∀ c ∈ digits, (digit? 8 c).isSome := by
  induction text using List.reverseRecOn generalizing out room value with
  | nil => cases h
  | append_singleton text c ih =>
      obtain ⟨found, p, step, hscan, hread⟩ := exists_read_of_scan_concat h
      obtain ⟨hd, ⟨rfl, rfl⟩ | ⟨before, rfl⟩⟩ := read_eq_octal hread
      -- the last digit stands right behind the backslash, or behind other digits
      · obtain ⟨front, rfl, hfront⟩ := exists_of_scan_opened hscan
        exact ⟨front, [c], by simp, hfront, by simp, by simpa using hd⟩
      · obtain ⟨front, digits, rfl, hfront, hlength, hdigits⟩ := ih hscan
        refine ⟨front, digits ++ [c], by simp, hfront, by simp; omega, ?_⟩
        intro c' hc'
        rcases List.mem_append.mp hc' with hc' | hc'
        · exact hdigits c' hc'
        · rw [List.mem_singleton.mp hc']
          exact hd

theorem read_backslash (h : q.finish = some xs) :
    q.read named '\\' = some (xs, .opened) := by
  obtain ⟨rfl, rfl⟩ | ⟨room, value, rfl, rfl⟩ := eq_clear_or_octal_of_finish h
  · rfl
  · cases room <;> rfl

theorem read_first_digit (hd : digit? 8 c = some d) :
    Pending.read named .opened c = some ([], .octal 2 d) := by
  rw [Pending.read, Pending.choose, hd]

theorem read_next_digit (hd : digit? 8 c = some d) (room value : ℕ) :
    Pending.read named (.octal (room + 1) value) c = some ([], .octal room (8 * value + d)) := by
  rw [Pending.read, Pending.readOctal.eq_def, hd]

theorem exists_scan_of_endsInOctal (h : EndsInOctal named text) :
    ∃ out room value, scan named .clear text = some (out, .octal (room + 1) value) := by
  obtain ⟨front, digits, rfl, hfront, hlength, hdigits⟩ := h
  obtain ⟨xs, hxs⟩ := Option.isSome_iff_exists.mp hfront
  obtain ⟨found, q, points, hscan, hfinish, -⟩ := exists_scan_of_decode hxs
  rcases hlength with hlength | hlength
  · obtain ⟨c, rfl⟩ := List.length_eq_one_iff.mp hlength
    obtain ⟨d, hd⟩ := Option.isSome_iff_exists.mp (hdigits c (by simp))
    refine ⟨found ++ points, 1, d, ?_⟩
    simp [scan_append, hscan, scan, read_backslash hfinish, read_first_digit hd]
  · obtain ⟨c, c', rfl⟩ := List.length_eq_two.mp hlength
    obtain ⟨d, hd⟩ := Option.isSome_iff_exists.mp (hdigits c (by simp))
    obtain ⟨d', hd'⟩ := Option.isSome_iff_exists.mp (hdigits c' (by simp))
    refine ⟨found ++ points, 0, 8 * d + d', ?_⟩
    simp [scan_append, hscan, scan, read_backslash hfinish, read_first_digit hd,
      read_next_digit hd']

/-- The texts that end in an octal escape with room are those behind which one is pending. -/
theorem endsInOctal_iff : EndsInOctal named text ↔
    (scan named .clear text).any fun found => found.2.hasRoom := by
  constructor
  · intro hends
    obtain ⟨out, room, value, hscan⟩ := exists_scan_of_endsInOctal hends
    rw [hscan]
    rfl
  · intro hany
    obtain ⟨⟨out, q⟩, hscan, hroom⟩ := (Option.any_eq_true _ _).mp hany
    obtain ⟨room, value, rfl⟩ := Pending.hasRoom_iff.mp hroom
    obtain ⟨front, digits, htext, hfront, hlength, hdigits⟩ := exists_of_scan_octal hscan
    exact ⟨front, digits, htext, hfront, by omega, hdigits⟩

instance (text : List Char) : Decidable (EndsInOctal named text) :=
  decidable_of_iff _ endsInOctal_iff.symm

instance (text : List Char) : Decidable (BeginsWithOctal text) :=
  decidable_of_iff (text.head?.any fun c => (digit? 8 c).isSome)
    (by simp [BeginsWithOctal, Option.any_eq_true])

/-! ## One text behind another -/

/-- The octal escape at the end of a text takes digits from the beginning of the next. -/
def TakesDigits (named : List Char → Option ℕ) (a b : List Char) : Prop :=
  EndsInOctal named a ∧ BeginsWithOctal b

instance (a b : List Char) : Decidable (TakesDigits named a b) :=
  inferInstanceAs (Decidable (EndsInOctal named a ∧ BeginsWithOctal b))

theorem decode_append_of_finish (ha : scan named .clear a = some (out, q)) :
    decode named (a ++ b) = (decodeFrom named q b).map (out ++ ·) := by
  rw [decode, decodeFrom_append, ha, Option.bind_some]

/-- Where an octal escape ends, its character stands before those of the text behind it. -/
theorem decodeFrom_octal_of_ends (h : room = 0 ∨ ¬ BeginsWithOctal b) (value : ℕ) :
    decodeFrom named (.octal room value) b = (decode named b).map (value :: ·) := by
  cases b with
  | nil => rfl
  | cons c rest =>
      have hread : Pending.read named (.octal room value) c =
          some (value :: (Pending.start c).1, (Pending.start c).2) := by
        rw [Pending.read, Pending.readOctal.eq_def]
        split
        case h_1 room d hd =>
          rcases h with h | h
          · cases h
          · exact absurd ⟨c, rfl, by simp [hd]⟩ h
        case h_2 => rfl
      rw [decode, decodeFrom_cons, decodeFrom_cons, hread, Pending.read]
      simp [Function.comp_def]

theorem decodeFrom_octal_digit (hd : digit? 8 c = some d) (room value : ℕ) (rest : List Char) :
    decodeFrom named (.octal (room + 1) value) (c :: rest) =
      decodeFrom named (.octal room (8 * value + d)) rest := by
  rw [decodeFrom_cons, read_next_digit hd]
  simp

theorem decode_digit (hd : digit? 8 c = some d) (rest : List Char) :
    decode named (c :: rest) = (decode named rest).map (c.toNat :: ·) := by
  rw [decode, decodeFrom_cons, Pending.read, Pending.start, if_neg (ne_backslash_of_digit? hd)]
  simp [decode]

/-- An octal escape and the text behind it make at most one character more than the text. -/
theorem exists_decodeFrom_octal (room value : ℕ) (h : decode named b = some ys) :
    ∃ zs, decodeFrom named (.octal room value) b = some zs ∧ zs.length ≤ ys.length + 1 := by
  induction room generalizing value b ys with
  | zero =>
      rw [decodeFrom_octal_of_ends (.inl rfl), h]
      exact ⟨value :: ys, rfl, Nat.le_refl _⟩
  | succ room ih =>
      by_cases hb : BeginsWithOctal b
      · obtain ⟨c, hc, hdigit⟩ := hb
        obtain ⟨rest, rfl⟩ := List.head?_eq_some_iff.mp hc
        obtain ⟨d, hd⟩ := Option.isSome_iff_exists.mp hdigit
        rw [decode_digit hd] at h
        obtain ⟨behind, hbehind, rfl⟩ := Option.map_eq_some_iff.mp h
        rw [decodeFrom_octal_digit hd]
        obtain ⟨zs, hzs, hlength⟩ := ih (8 * value + d) hbehind
        exact ⟨zs, hzs, by simp; omega⟩
      · rw [decodeFrom_octal_of_ends (.inr hb), h]
        exact ⟨value :: ys, rfl, Nat.le_refl _⟩

/-- A digit that the escape takes is no character of its own. -/
theorem exists_decodeFrom_octal_of_digit (room value : ℕ) (hb : BeginsWithOctal b)
    (h : decode named b = some ys) :
    ∃ zs, decodeFrom named (.octal (room + 1) value) b = some zs ∧ zs.length < ys.length + 1 := by
  obtain ⟨c, hc, hdigit⟩ := hb
  obtain ⟨rest, rfl⟩ := List.head?_eq_some_iff.mp hc
  obtain ⟨d, hd⟩ := Option.isSome_iff_exists.mp hdigit
  rw [decode_digit hd] at h
  obtain ⟨behind, hbehind, rfl⟩ := Option.map_eq_some_iff.mp h
  rw [decodeFrom_octal_digit hd]
  obtain ⟨zs, hzs, hlength⟩ := exists_decodeFrom_octal room (8 * value + d) hbehind
  exact ⟨zs, hzs, by simp; omega⟩

/-- Texts that are complete on their own are complete together, and if no escape takes digits
they stand for the same characters. -/
theorem decode_append_of_not_takesDigits (ha : decode named a = some xs)
    (hb : decode named b = some ys) (h : ¬ TakesDigits named a b) :
    decode named (a ++ b) = some (xs ++ ys) := by
  obtain ⟨found, q, points, hscan, hfinish, rfl⟩ := exists_scan_of_decode ha
  have hbehind : decodeFrom named q b = some (points ++ ys) := by
    obtain ⟨rfl, rfl⟩ | ⟨room, value, rfl, rfl⟩ := eq_clear_or_octal_of_finish hfinish
    · exact hb
    · have hends : room = 0 ∨ ¬ BeginsWithOctal b := by
        rw [TakesDigits, endsInOctal_iff, hscan, not_and_or] at h
        refine h.imp_left fun hfull => ?_
        cases room with
        | zero => rfl
        | succ room => exact absurd rfl hfull
      rw [decodeFrom_octal_of_ends hends, hb]
      rfl
  rw [decode_append_of_finish hscan, hbehind]
  simp

/-- Texts of which the first takes digits stand for fewer characters together. -/
theorem exists_decode_append_of_takesDigits (ha : decode named a = some xs)
    (hb : decode named b = some ys) (h : TakesDigits named a b) :
    ∃ zs, decode named (a ++ b) = some zs ∧ zs.length < xs.length + ys.length := by
  obtain ⟨found, q, points, hscan, hfinish, rfl⟩ := exists_scan_of_decode ha
  obtain ⟨_, room, value, hends⟩ := exists_scan_of_endsInOctal h.1
  obtain ⟨-, rfl⟩ := Prod.mk.inj (Option.some.inj (hscan.symm.trans hends))
  obtain rfl : [value] = points := Option.some.inj hfinish
  obtain ⟨zs, hzs, hlength⟩ := exists_decodeFrom_octal_of_digit room value h.2 hb
  rw [decode_append_of_finish hscan, hzs]
  exact ⟨found ++ zs, rfl, by simp; omega⟩

/-! ## Many texts behind each other -/

/-- No escape takes digits where texts are put behind each other, the first of them behind
`front`. -/
def NoneTakesDigits (named : List Char → Option ℕ) : List Char → List (List Char) → Prop
  | _, [] => True
  | front, text :: rest =>
    ¬ TakesDigits named front text ∧ NoneTakesDigits named (front ++ text) rest

instance decidableNoneTakesDigits (front : List Char) (texts : List (List Char)) :
    Decidable (NoneTakesDigits named front texts) :=
  match texts with
  | [] => isTrue trivial
  | text :: rest =>
    have := decidableNoneTakesDigits (front ++ text) rest
    inferInstanceAs
      (Decidable (¬ TakesDigits named front text ∧ NoneTakesDigits named (front ++ text) rest))

/-- Texts that are complete on their own stand together for what they stand for on their own, or
for fewer characters if an escape takes digits. -/
theorem exists_decode_append_flatten {texts : List (List Char)} {decoded : List (List ℕ)}
    (hfront : decode named a = some xs)
    (htexts : List.Forall₂ (fun text points => decode named text = some points) texts decoded) :
    ∃ zs, decode named (a ++ texts.flatten) = some zs ∧
      (NoneTakesDigits named a texts → zs = xs ++ decoded.flatten) ∧
      zs.length ≤ xs.length + decoded.flatten.length ∧
      (¬ NoneTakesDigits named a texts → zs.length < xs.length + decoded.flatten.length) := by
  induction htexts generalizing a xs with
  | nil => exact ⟨xs, by simpa using hfront, by simp, by simp, fun h => absurd trivial h⟩
  | @cons text points rest others htext _ ih =>
      rw [List.flatten_cons, List.flatten_cons, ← List.append_assoc, NoneTakesDigits]
      by_cases h : TakesDigits named a text
      -- a character that is lost here does not come back, whatever the other texts are
      · obtain ⟨ms, hms, hless⟩ := exists_decode_append_of_takesDigits hfront htext h
        obtain ⟨zs, hzs, -, hlength, -⟩ := ih hms
        rw [List.length_append]
        exact ⟨zs, hzs, fun hnone => absurd h hnone.1, by omega, fun _ => by omega⟩
      · obtain ⟨zs, hzs, hequal, hlength, hless⟩ :=
          ih (decode_append_of_not_takesDigits hfront htext h)
        refine ⟨zs, hzs, fun hnone => by simpa using hequal hnone.2, ?_, fun hsome => ?_⟩
        · simpa [Nat.add_assoc] using hlength
        · simpa [Nat.add_assoc] using hless fun hnone => hsome ⟨h, hnone⟩

end TreeLowering.Text
