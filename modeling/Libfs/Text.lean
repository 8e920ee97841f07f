import Libfs.Stdio
import Mathlib.Data.List.TakeWhile
import Mathlib.Data.Nat.Digits.Lemmas

/-! # Numbers and tokens in a text file

    What `fprintf` prints of a number `atoi` reads back, what `fprintf` prints
    as a line `fgets` reads as that line, and what stands before a delimiter
    `strtok` cuts out, provided none of it is empty.  The file is its bytes. -/

namespace LibfsText

open LibfsHeap LibfsStdio

/-! ## Decimal numbers -/

/-- The character of a digit. -/
def digitByte (d : Nat) : UInt8 := UInt8.ofNat (48 + d)

/-- `isdigit`. -/
def isDigit (b : UInt8) : Bool := decide (48 ≤ b.toNat) && decide (b.toNat ≤ 57)

/-- `isspace`. -/
def isSpace (b : UInt8) : Bool := decide (b = 32) || (decide (9 ≤ b.toNat) && decide (b.toNat ≤ 13))

/-- The digits of a number, the most significant one first. -/
def decimal (n : Nat) : Bytes :=
  if n = 0 then [48] else (Nat.digits 10 n).reverse.map digitByte

/-- `%ld`, and `%d` of an `int`. -/
def printInt (z : Int) : Bytes := if z < 0 then 45 :: decimal z.natAbs else decimal z.natAbs

/-- The number a run of digits stands for. -/
def value (ds : Bytes) : Nat := ds.foldl (fun n b => b.toNat - 48 + 10 * n) 0

/-- `LONG_MIN` and `LONG_MAX` stand for what lies beyond them. -/
def clampLong (z : Int) : Int := max (-9223372036854775808) (min z 9223372036854775807)

/-- `strtol` in base ten: blanks, a sign, then digits up to the first byte
    that is none. -/
def strtol (s : Bytes) : Int :=
  match s.dropWhile isSpace with
  | [] => 0
  | b :: ds =>
      if b = 45 then clampLong (-(value (ds.takeWhile isDigit) : Int))
      else if b = 43 then clampLong (value (ds.takeWhile isDigit))
      else clampLong (value ((b :: ds).takeWhile isDigit))

/-- A value stored in an `int`. -/
def toInt32 (z : Int) : Int := (z + 2147483648) % 4294967296 - 2147483648

/-- A value stored in an `unsigned`. -/
def toUInt32 (z : Int) : Nat := (z % 4294967296).toNat

/-- `atoi` is `(int) strtol(s, NULL, 10)`. -/
def atoi (s : Bytes) : Int := toInt32 (strtol s)

/-- The values of an `int`. -/
def IsInt32 (z : Int) : Prop := -2147483648 ≤ z ∧ z ≤ 2147483647

instance (z : Int) : Decidable (IsInt32 z) := inferInstanceAs (Decidable (_ ∧ _))

/-- What is converted to an `int` is one. -/
theorem isInt32_toInt32 (z : Int) : IsInt32 (toInt32 z) := by
  unfold IsInt32 toInt32
  omega

/-- An `int` is converted to itself. -/
theorem toInt32_of_isInt32 {z : Int} (h : IsInt32 z) : toInt32 z = z := by
  unfold IsInt32 at h
  unfold toInt32
  omega

/-- An `unsigned` survives the way through an `int`. -/
theorem toUInt32_toInt32 {n : Nat} (h : n < 4294967296) : toUInt32 (toInt32 n) = n := by
  unfold toUInt32 toInt32
  omega

/-- The digits stand in order from `'0'` on. -/
theorem digitByte_toNat {d : Nat} (h : d < 10) : (digitByte d).toNat = 48 + d := by
  unfold digitByte
  rw [UInt8.toNat_ofNat']
  omega

/-- The character of a digit is one. -/
theorem digitByte_isDigit {d : Nat} (h : d < 10) : isDigit (digitByte d) = true := by
  unfold isDigit
  rw [digitByte_toNat h, Bool.and_eq_true, decide_eq_true_iff, decide_eq_true_iff]
  omega

/-- The value of the digits is the number they are the digits of. -/
theorem value_digits (ds : List Nat) (h : ∀ d ∈ ds, d < 10) :
    value (ds.reverse.map digitByte) = Nat.ofDigits 10 ds := by
  unfold value
  rw [List.foldl_map, List.foldl_reverse]
  induction ds with
  | nil => rfl
  | cons d ds ih =>
      rw [List.foldr_cons, ih fun e he => h e (List.mem_cons_of_mem d he), Nat.ofDigits_cons,
        digitByte_toNat (h d (List.mem_cons_self ..)), Nat.add_sub_cancel_left]

/-- A number in decimal has its value. -/
theorem value_decimal (n : Nat) : value (decimal n) = n := by
  unfold decimal
  split
  · next hzero =>
      rw [hzero]
      rfl
  · rw [value_digits _ fun d hd => Nat.digits_lt_base (by decide) hd, Nat.ofDigits_digits]

/-- It is made of digits. -/
theorem decimal_isDigit {n : Nat} {b : UInt8} (h : b ∈ decimal n) : isDigit b = true := by
  unfold decimal at h
  split at h
  · rw [List.mem_singleton.mp h]
    decide
  · obtain ⟨d, hd, rfl⟩ := List.mem_map.mp h
    exact digitByte_isDigit (Nat.digits_lt_base (by decide) (List.mem_reverse.mp hd))

/-- It has at least one. -/
theorem decimal_ne_nil (n : Nat) : decimal n ≠ [] := by
  unfold decimal
  split
  · exact List.cons_ne_nil _ _
  · next hne =>
      intro hnil
      exact Nat.digits_ne_nil_iff_ne_zero.mpr hne
        (List.reverse_eq_nil_iff.mp (List.map_eq_nil_iff.mp hnil))

/-- It has no more than its magnitude needs. -/
theorem decimal_length {n k : Nat} (hk : 0 < k) (hn : n < 10 ^ k) : (decimal n).length ≤ k := by
  unfold decimal
  split
  · exact hk
  · rw [List.length_map, List.length_reverse]
    exact (Nat.digits_length_le_iff (by decide) n).mpr hn

/-- The digits of a number end where none follows. -/
theorem takeWhile_decimal (n : Nat) {tail : Bytes} (htail : tail.takeWhile isDigit = []) :
    (decimal n ++ tail).takeWhile isDigit = decimal n := by
  rw [List.takeWhile_append_of_pos fun _ hb => decimal_isDigit hb, htail, List.append_nil]

/-- An `int` is not cut off. -/
theorem clampLong_of_isInt32 {z : Int} (h : IsInt32 z) : clampLong z = z := by
  unfold IsInt32 at h
  unfold clampLong
  omega

/-- A digit is neither a blank nor a sign. -/
theorem digit_cases {b : UInt8} (h : isDigit b = true) :
    isSpace b = false ∧ b ≠ 45 ∧ b ≠ 43 := by
  unfold isDigit at h
  rw [Bool.and_eq_true, decide_eq_true_iff, decide_eq_true_iff] at h
  refine ⟨?_, ?_, ?_⟩
  · unfold isSpace
    rw [Bool.or_eq_false_iff, decide_eq_false_iff_not, Bool.and_eq_false_iff]
    constructor
    · rintro rfl
      exact absurd h.1 (by decide)
    · right
      rw [decide_eq_false_iff_not]
      intro hle
      exact absurd (Nat.le_trans h.1 hle) (by decide)
  · rintro rfl
    exact absurd h.1 (by decide)
  · rintro rfl
    exact absurd h.1 (by decide)

/-- A number that was printed is read up to the first byte behind it. -/
theorem atoi_printed {z : Int} (h : IsInt32 z) {tail : Bytes}
    (htail : tail.takeWhile isDigit = []) : atoi (printInt z ++ tail) = z := by
  have hread : strtol (printInt z ++ tail) = z := by
    unfold printInt
    by_cases hneg : z < 0
    · rw [if_pos hneg]
      have habs : -(z.natAbs : Int) = z := by omega
      unfold strtol
      rw [List.cons_append, List.dropWhile_cons_of_neg (by decide)]
      show clampLong (-(value ((decimal z.natAbs ++ tail).takeWhile isDigit) : Int)) = z
      rw [takeWhile_decimal _ htail, value_decimal, habs, clampLong_of_isInt32 h]
    · rw [if_neg hneg]
      have habs : (z.natAbs : Int) = z := by omega
      cases hds : decimal z.natAbs with
      | nil => exact absurd hds (decimal_ne_nil _)
      | cons b ds =>
          have hb : b ∈ decimal z.natAbs := by
            rw [hds]
            exact List.mem_cons_self ..
          obtain ⟨hspace, hminus, hplus⟩ := digit_cases (decimal_isDigit hb)
          unfold strtol
          rw [List.cons_append, List.dropWhile_cons_of_neg (by rw [hspace]; decide)]
          simp only [if_neg hminus, if_neg hplus]
          rw [← List.cons_append, ← hds, takeWhile_decimal _ htail, value_decimal, habs,
            clampLong_of_isInt32 h]
  unfold atoi
  rw [hread, toInt32_of_isInt32 h]

/-- `atoi` reads back what was printed. -/
theorem atoi_printInt {z : Int} (h : IsInt32 z) : atoi (printInt z) = z := by
  have hread := atoi_printed h (rfl : ([] : Bytes).takeWhile isDigit = [])
  rwa [List.append_nil] at hread

/-- An `unsigned` that passed through `%d` and `atoi`. -/
theorem atoi_printUnsigned {n : Nat} (h : n < 4294967296) :
    toUInt32 (atoi (printInt (toInt32 n))) = n := by
  rw [atoi_printInt (isInt32_toInt32 _), toUInt32_toInt32 h]

/-- A number is printed with at least one character. -/
theorem printInt_ne_nil (z : Int) : printInt z ≠ [] := by
  unfold printInt
  split
  · exact List.cons_ne_nil _ _
  · exact decimal_ne_nil _

/-- A number takes a sign and ten digits at most. -/
theorem printInt_length {z : Int} (h : IsInt32 z) : (printInt z).length ≤ 11 := by
  unfold IsInt32 at h
  have hlen := decimal_length (show 0 < 10 by decide) (show z.natAbs < 10 ^ 10 by omega)
  unfold printInt
  split
  · rw [List.length_cons]
    omega
  · omega

/-- A printed number has no byte that cuts a line or a field. -/
theorem printInt_bytes {z : Int} {b : UInt8} (h : b ∈ printInt z) : b ≠ 0 ∧ b ≠ 10 ∧ b ≠ 44 := by
  have hdigit : ∀ b, isDigit b = true → b ≠ 0 ∧ b ≠ 10 ∧ b ≠ 44 := by
    intro b hb
    unfold isDigit at hb
    rw [Bool.and_eq_true, decide_eq_true_iff, decide_eq_true_iff] at hb
    refine ⟨?_, ?_, ?_⟩ <;>
      · rintro rfl
        exact absurd hb.1 (by decide)
  unfold printInt at h
  split at h
  · rcases List.mem_cons.mp h with rfl | h
    · decide
    · exact hdigit b (decimal_isDigit h)
  · exact hdigit b (decimal_isDigit h)

/-! ## Lines -/

/-- The bytes up to the next newline, at most `n`, and the bytes behind. -/
def cutLine : Nat → Bytes → Bytes × Bytes
  | 0, file => ([], file)
  | _ + 1, [] => ([], [])
  | n + 1, b :: file =>
      if b = 10 then ([b], file)
      else (b :: (cutLine n file).1, (cutLine n file).2)

/-- `fgets` into a buffer of `size` bytes: what it reads and what it leaves of
    the file, or `NULL` at the end of the file. -/
def fgets (size : Nat) (file : Bytes) : Option (Bytes × Bytes) :=
  if file = [] then none else some (cutLine (size - 1) file)

/-- What `while (fgets(..))` reads in its rounds, of which there are at most
    as many as bytes. -/
def linesOf (size : Nat) : Nat → Bytes → List Bytes
  | 0, _ => []
  | n + 1, file =>
      match fgets size file with
      | none => []
      | some (line, rest) => line :: linesOf size n rest

/-- What the calls of `fgets` return, one after the other. -/
def fileLines (size : Nat) (file : Bytes) : List Bytes := linesOf size file.length file

/-- The line and the rest make up the file. -/
theorem cutLine_append (n : Nat) : ∀ file : Bytes, (cutLine n file).1 ++ (cutLine n file).2 = file := by
  induction n with
  | zero =>
      intro file
      rfl
  | succ n ih =>
      intro file
      cases file with
      | nil => rfl
      | cons b file =>
          rw [cutLine]
          split
          · rfl
          · exact congrArg (b :: ·) (ih file)

/-- A line has one newline at most. -/
theorem cutLine_count (n : Nat) : ∀ file : Bytes, (cutLine n file).1.count 10 ≤ 1 := by
  induction n with
  | zero =>
      intro file
      exact Nat.zero_le 1
  | succ n ih =>
      intro file
      cases file with
      | nil => exact Nat.zero_le 1
      | cons b file =>
          rw [cutLine]
          split
          · exact List.count_le_length
          · next hb =>
              rw [List.count_cons_of_ne hb]
              exact ih file

/-- A line that fits the buffer is read with its newline. -/
theorem cutLine_line (body rest : Bytes) :
    ∀ n, 10 ∉ body → body.length < n → cutLine n (body ++ 10 :: rest) = (body ++ [10], rest) := by
  induction body with
  | nil =>
      intro n _ hn
      cases n with
      | zero => exact absurd hn (Nat.not_lt_zero _)
      | succ n => rfl
  | cons b body ih =>
      intro n hbody hn
      cases n with
      | zero => exact absurd hn (Nat.not_lt_zero _)
      | succ n =>
          have hb : b ≠ 10 := fun he => hbody (he ▸ List.mem_cons_self ..)
          have hrec := ih n (fun h => hbody (List.mem_cons_of_mem b h)) (Nat.lt_of_succ_lt_succ hn)
          rw [List.cons_append, cutLine, if_neg hb, hrec]
          rfl

/-- Lines that fit the buffer are read as they were printed. -/
theorem linesOf_lines {size : Nat} (bodies : List Bytes)
    (hfit : ∀ body ∈ bodies, 10 ∉ body ∧ body.length + 1 < size) :
    ∀ n, bodies.length ≤ n →
      linesOf size n (bodies.flatMap (· ++ [10])) = bodies.map (· ++ [10]) := by
  induction bodies with
  | nil =>
      intro n _
      cases n with
      | zero => rfl
      | succ n => rfl
  | cons body bodies ih =>
      intro n hn
      cases n with
      | zero => exact absurd hn (Nat.not_succ_le_zero _)
      | succ n =>
          obtain ⟨hbody, hlen⟩ := hfit body (List.mem_cons_self ..)
          have hcut : fgets size ((body :: bodies).flatMap (· ++ [10]))
              = some (body ++ [10], bodies.flatMap (· ++ [10])) := by
            rw [List.flatMap_cons, List.append_assoc]
            unfold fgets
            rw [if_neg (by simp)]
            exact congrArg some (cutLine_line body _ _ hbody (by omega))
          rw [linesOf, hcut, List.map_cons]
          exact congrArg _ (ih (fun b hb => hfit b (List.mem_cons_of_mem body hb)) n
            (Nat.le_of_succ_le_succ hn))

/-- Every line has a byte at least. -/
theorem length_le_flatMap (bodies : List Bytes) :
    bodies.length ≤ (bodies.flatMap (· ++ [10])).length := by
  induction bodies with
  | nil => exact Nat.le_refl 0
  | cons body bodies ih =>
      rw [List.flatMap_cons, List.length_append, List.length_append, List.length_cons]
      have hone : ([10] : Bytes).length = 1 := rfl
      omega

/-- Lines that fit the buffer are read one by one. -/
theorem fileLines_lines {size : Nat} {bodies : List Bytes}
    (hfit : ∀ body ∈ bodies, 10 ∉ body ∧ body.length + 1 < size) :
    fileLines size (bodies.flatMap (· ++ [10])) = bodies.map (· ++ [10]) :=
  linesOf_lines bodies hfit _ (length_le_flatMap bodies)

/-- Every newline of the file ends a round. -/
theorem count_le_linesOf {size : Nat} (hsize : 2 ≤ size) (n : Nat) :
    ∀ file : Bytes, file.length ≤ n → file.count 10 ≤ (linesOf size n file).length := by
  induction n with
  | zero =>
      intro file hfile
      rw [List.length_eq_zero_iff.mp (Nat.le_zero.mp hfile)]
      exact Nat.zero_le _
  | succ n ih =>
      intro file hfile
      cases file with
      | nil => exact Nat.zero_le _
      | cons b file =>
          obtain ⟨m, hm⟩ : ∃ m, size - 1 = m + 1 := ⟨size - 2, by omega⟩
          have happ := cutLine_append (m + 1) (b :: file)
          have hone := cutLine_count (m + 1) (b :: file)
          have hpos : 1 ≤ (cutLine (m + 1) (b :: file)).1.length := by
            rw [cutLine]
            split
            · exact Nat.le_refl 1
            · rw [List.length_cons]
              exact Nat.le_add_left _ _
          have hlen := congrArg List.length happ
          have hcount := congrArg (List.count 10) happ
          rw [List.length_append, List.length_cons] at hlen
          rw [List.count_append] at hcount
          rw [List.length_cons] at hfile
          have hrest := ih (cutLine (m + 1) (b :: file)).2 (by omega)
          rw [linesOf]
          unfold fgets
          rw [if_neg (List.cons_ne_nil b file), hm]
          show _ ≤ (_ :: linesOf size n (cutLine (m + 1) (b :: file)).2).length
          rw [List.length_cons]
          omega

/-- Every line has its newline. -/
theorem length_le_count (bodies : List Bytes) :
    bodies.length ≤ (bodies.flatMap (· ++ [10])).count 10 := by
  induction bodies with
  | nil => exact Nat.le_refl 0
  | cons body bodies ih =>
      have hone : ([10] : Bytes).count 10 = 1 := rfl
      rw [List.flatMap_cons, List.count_append, List.count_append, hone, List.length_cons]
      omega

/-- Where there are no more newlines than lines, no line has one inside. -/
theorem no_newline_of_count (bodies : List Bytes)
    (h : (bodies.flatMap (· ++ [10])).count 10 ≤ bodies.length) : ∀ body ∈ bodies, 10 ∉ body := by
  induction bodies with
  | nil => exact fun body hbody => nomatch hbody
  | cons body bodies ih =>
      have hone : ([10] : Bytes).count 10 = 1 := rfl
      have hleast := length_le_count bodies
      rw [List.flatMap_cons, List.count_append, List.count_append, hone, List.length_cons] at h
      intro b hb
      rcases List.mem_cons.mp hb with rfl | hb
      · exact List.count_eq_zero.mp (by omega)
      · exact ih (by omega) b hb

/-! ## Tokens -/

/-- The byte is one of the delimiters. -/
def isDelim (delims : Bytes) (b : UInt8) : Bool := decide (b ∈ delims)

/-- The byte is part of a token. -/
def inToken (delims : Bytes) (b : UInt8) : Bool := decide (b ≠ 0) && !isDelim delims b

/-- `strtok(line + off, delims)`: the token, and the line in which its
    delimiter is overwritten.  The string ends inside the line. -/
def strtok (delims line : Bytes) (off : Nat) : C (Option Bytes × Bytes) :=
  let lead := (line.drop off).takeWhile (isDelim delims)
  match (line.drop off).dropWhile (isDelim delims) with
  | [] => .error .undefinedBehaviour
  | b :: s =>
      if b = 0 then .ok (none, line)
      else
        let token := (b :: s).takeWhile (inToken delims)
        let stop := off + lead.length + token.length
        if stop < line.length then .ok (some token, line.set stop 0)
        else .error .undefinedBehaviour

/-- A line, and where in it the next token is looked for. -/
structure Cursor where
  line : Bytes
  off : Nat
deriving DecidableEq

/-- `token = strtok(line + off, delims); off += strlen(token) + 1`. -/
def Cursor.next (c : Cursor) (delims : Bytes) : C (Bytes × Cursor) := do
  match ← strtok delims c.line c.off with
  | (none, _) => .error .undefinedBehaviour
  | (some token, line) => .ok (token, ⟨line, c.off + token.length + 1⟩)

/-- What the cursor has before it. -/
def Cursor.rest (c : Cursor) : Bytes := c.line.drop c.off

/-- What stands before a delimiter or the terminator is cut out, unless there is
    nothing. -/
theorem Cursor.next_token {c : Cursor} {delims token rest : Bytes} {d : UInt8}
    (hrest : c.rest = token ++ d :: rest) (hne : token ≠ [])
    (htoken : ∀ b ∈ token, b ≠ 0 ∧ b ∉ delims) (hd : d = 0 ∨ d ∈ delims) :
    ∃ c', c.next delims = .ok (token, c') ∧ c'.rest = rest := by
  obtain ⟨b, s, hbs⟩ : ∃ b s, token = b :: s := List.exists_cons_of_ne_nil hne
  have hb : b ∈ token := by
    rw [hbs]
    exact List.mem_cons_self ..
  have hfirst : ¬ isDelim delims b = true := fun h => (htoken b hb).2 (of_decide_eq_true h)
  have hdrop : c.line.drop c.off = token ++ d :: rest := hrest
  have hlead : (c.line.drop c.off).takeWhile (isDelim delims) = [] := by
    rw [hdrop, hbs, List.cons_append, List.takeWhile_cons_of_neg hfirst]
  have hbody : (c.line.drop c.off).dropWhile (isDelim delims) = b :: (s ++ d :: rest) := by
    rw [hdrop, hbs, List.cons_append, List.dropWhile_cons_of_neg hfirst]
  have hcut : (b :: (s ++ d :: rest)).takeWhile (inToken delims) = token := by
    rw [← List.cons_append, ← hbs, List.takeWhile_append_of_pos]
    · have hstop : ¬ inToken delims d = true := by
        rcases hd with rfl | hd
        · simp [inToken]
        · simp [inToken, isDelim, hd]
      rw [List.takeWhile_cons_of_neg hstop, List.append_nil]
    · intro x hx
      simp [inToken, isDelim, htoken x hx]
  have hlen := congrArg List.length hdrop
  rw [List.length_drop, List.length_append, List.length_cons] at hlen
  have hin : c.off + token.length < c.line.length := by omega
  refine ⟨⟨c.line.set (c.off + token.length) 0, c.off + token.length + 1⟩, ?_, ?_⟩
  · unfold Cursor.next strtok
    rw [hbody]
    simp only [if_neg (htoken b hb).1, hcut, hlead, List.length_nil, Nat.add_zero, if_pos hin]
    rfl
  · show (c.line.set (c.off + token.length) 0).drop (c.off + token.length + 1) = rest
    rw [List.drop_set_of_lt (Nat.lt_add_one _), Nat.add_assoc, ← List.drop_drop, hdrop,
      List.drop_length_add_append]
    rfl

/-- Where only delimiters stand before the terminator there is no token. -/
theorem strtok_none {delims line lead rest : Bytes} {off : Nat}
    (hrest : line.drop off = lead ++ 0 :: rest) (hlead : ∀ b ∈ lead, b ∈ delims)
    (hnul : 0 ∉ delims) : strtok delims line off = .ok (none, line) := by
  have hterm : ¬ isDelim delims 0 = true := fun h => hnul (of_decide_eq_true h)
  have hall : ∀ b ∈ lead, isDelim delims b = true := fun b hb => decide_eq_true (hlead b hb)
  have hbody : (line.drop off).dropWhile (isDelim delims) = 0 :: rest := by
    rw [hrest, List.dropWhile_append_of_pos hall, List.dropWhile_cons_of_neg hterm]
  unfold strtok
  rw [hbody]
  rfl

/-- Without a token left, the next call of `strtok` finds none. -/
theorem Cursor.next_none {c : Cursor} {delims lead rest : Bytes}
    (hrest : c.rest = lead ++ 0 :: rest) (hlead : ∀ b ∈ lead, b ∈ delims) (hnul : 0 ∉ delims) :
    c.next delims = .error .undefinedBehaviour := by
  rw [Cursor.next, strtok_none hrest hlead hnul]
  rfl

end LibfsText
