import SquimpChat.Accounts

/-!
# Well-formed users files

`verify_credentials` reads the users file in `fgets` chunks and decodes a hash digit pair by
digit pair with `sscanf`. A `UsersFile` is a file whose lines fit a chunk and whose hashes are
hexadecimal as soon as they have 64 characters. On such a file the loop is a plain decoder: the
first line of the name decides, and the letter case and the kind of line end do not matter.

Results:
1. `entries_lines`: the chunks are the lines.
2. `decodeHash_eq`: the `sscanf` loop decodes 64 hexadecimal digits to the bytes they stand for.
3. `verifyCredentials_iff`: the answer for any username and hash.
-/

namespace SquimpChat
open Octets

/-- The hexadecimal digits in the order of their values, in both cases. -/
def lowerDigits : Bytes := [48, 49, 50, 51, 52, 53, 54, 55, 56, 57, 97, 98, 99, 100, 101, 102]
def upperDigits : Bytes := [48, 49, 50, 51, 52, 53, 54, 55, 56, 57, 65, 66, 67, 68, 69, 70]

/-- The value of a hexadecimal digit. -/
def hexValue (c : UInt8) : Option Nat := (lowerDigits.idxOf? c).or (upperDigits.idxOf? c)

/-- The bytes that pairs of hexadecimal digits stand for, the high digit first. -/
def decodePairs : Bytes → Option Bytes
  | [] => some []
  | [_] => none
  | a :: b :: s => do
    let x ← hexValue a
    let y ← hexValue b
    let bs ← decodePairs s
    some (UInt8.ofNat (16 * x + y) :: bs)

/-- A line of a users file without its end: text that fits a chunk of `fgets` together with a
CRLF, and if it has a colon, then 64 characters behind that are hexadecimal digits. -/
structure UsersLine where
  text : Bytes
  noNewline : newline ∉ text
  nulFree : 0 ∉ text
  short : text.length ≤ 253
  hash : ∀ name rest, text = name ++ colon :: rest → colon ∉ name →
    (stripEol rest).length = 64 → ∀ c ∈ stripEol rest, (hexValue c).isSome = true

inductive LineEnd
  | lf | crlf
deriving DecidableEq

def LineEnd.bytes : LineEnd → Bytes
  | lf => [newline]
  | crlf => [carriageReturn, newline]

/-- Lines with their ends, and a last line whose end is missing. -/
structure UsersFile where
  ended : List (UsersLine × LineEnd)
  last : Option UsersLine

namespace UsersFile

def bytes (f : UsersFile) : Bytes :=
  (f.ended.flatMap fun l => l.1.text ++ l.2.bytes) ++ (f.last.elim [] (·.text))

def lines (f : UsersFile) : List UsersLine := f.ended.map Prod.fst ++ f.last.toList

end UsersFile

namespace UsersLine

/-- The line has a colon, and this is what stands before the first and behind it, there
without the line ends. -/
def Holds (l : UsersLine) (name rest : Bytes) : Prop :=
  ∃ tail, l.text = name ++ colon :: tail ∧ colon ∉ name ∧ stripEol tail = rest

/-- The name and the digits of the line. -/
def account (l : UsersLine) : Option (Bytes × Bytes) :=
  (splitColon l.text).map fun p => (p.1, stripEol p.2)

theorem account_eq_some {l : UsersLine} {name rest : Bytes} :
    l.account = some (name, rest) ↔ l.Holds name rest := by
  unfold account
  constructor
  · intro h
    obtain ⟨⟨_, tail⟩, hsplit, heq⟩ := Option.map_eq_some_iff.mp h
    cases heq
    obtain ⟨ht, hname⟩ := splitColon_eq_some.mp hsplit
    exact ⟨tail, ht, hname, rfl⟩
  · rintro ⟨tail, ht, hname, rfl⟩
    rw [splitColon_eq_some.mpr ⟨ht, hname⟩]
    rfl

end UsersLine

/-! ## 1. Lines and chunks -/

namespace UsersFileLemmas

variable {l : UsersLine} {eol : Bytes}

theorem nl_not_mem_cr (l : UsersLine) : newline ∉ l.text ++ [carriageReturn] := by
  rw [List.mem_append, List.mem_singleton, not_or]
  exact ⟨l.noNewline, by decide⟩

/-- An ended line is a chunk of its own. -/
theorem fgetsChunks_ended (l : UsersLine) (e : LineEnd) (f : Bytes) :
    fgetsChunks 256 [] (l.text ++ e.bytes ++ f) = (l.text ++ e.bytes) :: fgetsChunks 256 [] f := by
  have hshort := l.short
  cases e with
  | lf =>
    rw [LineEnd.bytes, List.append_assoc, List.singleton_append]
    exact fgetsChunks_line l.noNewline (by omega)
  | crlf =>
    have h : fgetsChunks 256 [] ((l.text ++ [carriageReturn]) ++ newline :: f) =
        ((l.text ++ [carriageReturn]) ++ [newline]) :: fgetsChunks 256 [] f :=
      fgetsChunks_line (nl_not_mem_cr l)
        (by rw [List.length_append, List.length_singleton]; omega)
    simpa [LineEnd.bytes] using h

theorem fgetsChunks_last (l : UsersLine) :
    fgetsChunks 256 [] l.text = if l.text = [] then [] else [l.text] := by
  have h : fgetsChunks 256 [] (l.text ++ []) = fgetsChunks 256 (l.text.reverse ++ []) [] :=
    fgetsChunks_body l.noNewline (by have := l.short; simp only [List.length_nil]; omega)
  rw [List.append_nil, List.append_nil] at h
  rw [h, fgetsChunks]
  simp

theorem stripEol_append {rest : Bytes}
    (heol : ∀ c ∈ eol, (c == newline || c == carriageReturn) = true) :
    stripEol (rest ++ eol) = stripEol rest := by
  rw [stripEol, stripEol, List.reverse_append, List.dropWhile_append_of_pos]
  exact fun c hc => heol c (List.mem_reverse.mp hc)

/-- A chunk is read as the line it consists of. -/
theorem entryOf_ended (hnul : 0 ∉ eol)
    (heol : ∀ c ∈ eol, (c == newline || c == carriageReturn) = true) :
    entryOf (l.text ++ eol) = l.account := by
  have hplain : 0 ∉ l.text ++ eol := by
    rw [List.mem_append, not_or]
    exact ⟨l.nulFree, hnul⟩
  have hcolon : colon ∉ eol := fun hc => absurd (heol colon hc) (by decide)
  refine Option.ext fun ⟨name, rest⟩ => ?_
  rw [UsersLine.account_eq_some, entryOf, cString_eq_self.mpr hplain]
  constructor
  · intro h
    obtain ⟨⟨_, tail⟩, hsplit, heq⟩ := Option.map_eq_some_iff.mp h
    cases heq
    obtain ⟨ht, hname⟩ := splitColon_eq_some.mp hsplit
    -- the colon is one of the line, since its end has none
    rcases List.append_eq_append_iff.mp ht with ⟨as, has, htail⟩ | ⟨as, htext, htail⟩
    · exact absurd (htail ▸ List.mem_append_right _ List.mem_cons_self) hcolon
    · cases as with
      | nil => exact absurd (List.nil_append eol ▸ htail ▸ List.mem_cons_self) hcolon
      | cons c as =>
        obtain ⟨rfl, rfl⟩ := List.cons.inj htail
        exact ⟨as, htext, hname, (stripEol_append heol).symm⟩
  · rintro ⟨tail, ht, hname, rfl⟩
    have hsplit : splitColon (l.text ++ eol) = some (name, tail ++ eol) :=
      splitColon_eq_some.mpr ⟨by rw [ht, List.append_assoc]; rfl, hname⟩
    rw [hsplit, Option.map_some, stripEol_append heol]

end UsersFileLemmas
open UsersFileLemmas AccountLemmas

/-- The readers see the accounts of the lines. -/
theorem entries_lines (f : UsersFile) : entries f.bytes = f.lines.filterMap (·.account) := by
  obtain ⟨ended, last⟩ := f
  induction ended with
  | nil =>
    cases last with
    | none => rfl
    | some l =>
      have hchunk : entryOf (l.text ++ []) = l.account := entryOf_ended nofun nofun
      rw [List.append_nil] at hchunk
      show (fgetsChunks 256 [] l.text).filterMap entryOf = [l].filterMap (·.account)
      rw [fgetsChunks_last, List.filterMap_cons, ← hchunk]
      split
      · next hnil =>
        rw [hnil]
        rfl
      · rfl
  | cons le ended ih =>
    obtain ⟨l, e⟩ := le
    have hfile : (UsersFile.mk ((l, e) :: ended) last).bytes =
        l.text ++ e.bytes ++ (UsersFile.mk ended last).bytes := by
      simp [UsersFile.bytes]
    have hchunk : entryOf (l.text ++ e.bytes) = l.account :=
      entryOf_ended (by cases e <;> decide) (List.all_eq_true.mp (by cases e <;> rfl))
    have hlines : (UsersFile.mk ((l, e) :: ended) last).lines =
        l :: (UsersFile.mk ended last).lines := rfl
    rw [entries, hfile, fgetsChunks_ended, List.filterMap_cons, hchunk, hlines,
      List.filterMap_cons, ← ih]
    rfl

/-! ## 2. Digits -/

namespace UsersFileLemmas

/-- What `sscanf` makes of a hexadecimal digit: no space, no sign, and its value. -/
theorem hexDigit_of_value {c : UInt8} {x : Nat} (h : hexValue c = some x) :
    isSpace c = false ∧ c ≠ 43 ∧ c ≠ 45 ∧ hexDigit c = some (UInt8.ofNat x) := by
  have digits : (lowerDigits ++ upperDigits).all (fun c => (hexValue c).all fun x =>
      isSpace c = false ∧ c ≠ 43 ∧ c ≠ 45 ∧ hexDigit c = some (UInt8.ofNat x)) = true := by decide
  refine of_decide_eq_true ((Option.all_eq_true _ _).mp (List.all_eq_true.mp digits c ?_) x h)
  by_contra hc
  rw [List.mem_append, not_or] at hc
  rw [hexValue, List.idxOf?_eq_none_iff.mpr hc.1, List.idxOf?_eq_none_iff.mpr hc.2] at h
  cases h

theorem sscanf02x_digits {a b : UInt8} {x y : Nat} (ha : hexValue a = some x)
    (hb : hexValue b = some y) (s : Bytes) :
    sscanf02x (a :: b :: s) = some (UInt8.ofNat (16 * x + y)) := by
  obtain ⟨hspace, hplus, hminus, hdigit⟩ := hexDigit_of_value ha
  obtain ⟨_, _, _, hdigit'⟩ := hexDigit_of_value hb
  rw [sscanf02x, List.dropWhile_cons_of_neg (by simp [hspace]), scanHex]
  simp [hplus, hminus, hdigit, hdigit', UInt8.ofNat_add, UInt8.ofNat_mul]

/-- Pairs of digits are decoded one after the other. -/
theorem decodePairs_spec {s : Bytes} {n : Nat} (hs : s.length = 2 * n)
    (hdigits : ∀ c ∈ s, (hexValue c).isSome = true) :
    ∃ bs, decodePairs s = some bs ∧ bs.length = n ∧
      ∀ i (hi : i < bs.length), sscanf02x (s.drop (2 * i)) = some bs[i] := by
  induction n generalizing s with
  | zero =>
    rw [List.length_eq_zero_iff.mp hs]
    exact ⟨[], rfl, rfl, fun i hi => absurd hi (Nat.not_lt_zero i)⟩
  | succ n ih =>
    match s with
    | [] => exact absurd hs (by simp)
    | [_] => exact absurd hs (by simp only [List.length_singleton]; omega)
    | a :: b :: s =>
      obtain ⟨x, hx⟩ := Option.isSome_iff_exists.mp (hdigits a (by simp))
      obtain ⟨y, hy⟩ := Option.isSome_iff_exists.mp (hdigits b (by simp))
      obtain ⟨bs, hbs, hlen, hscan⟩ := ih (s := s) (by simp only [List.length_cons] at hs; omega)
        fun c hc => hdigits c (List.mem_cons_of_mem _ (List.mem_cons_of_mem _ hc))
      refine ⟨UInt8.ofNat (16 * x + y) :: bs, ?_, by rw [List.length_cons, hlen], fun i hi => ?_⟩
      · rw [decodePairs, hx, hy, hbs]
        rfl
      · cases i with
        | zero => exact sscanf02x_digits hx hy s
        | succ i => exact hscan i (Nat.lt_of_succ_lt_succ hi)

end UsersFileLemmas

/-- 64 hexadecimal digits are decoded to the bytes they stand for. -/
theorem decodeHash_eq {hex : Bytes} (uninit : Nat → UInt8) (hlen : hex.length = 64)
    (hdigits : ∀ c ∈ hex, (hexValue c).isSome = true) :
    decodePairs hex = some (decodeHash uninit hex) := by
  obtain ⟨bs, hbs, hn, hscan⟩ := decodePairs_spec (n := 32) hlen hdigits
  rw [hbs]
  refine congrArg some (List.ext_getElem (by simp [decodeHash, hn]) fun i hi hi' => ?_)
  simp only [decodeHash, List.getElem_map, List.getElem_range, hscan i hi, Option.getD_some]

/-! ## 3. The answer -/

namespace UsersFileLemmas

/-- The entry of a name is that of the first line that has the name. -/
theorem lookup_account {ls : List UsersLine} {u hex : Bytes} :
    (ls.filterMap (·.account)).lookup u = some hex ↔
      ∃ pre l post, ls = pre ++ l :: post ∧ (∀ l' ∈ pre, ∀ rest, ¬ l'.Holds u rest) ∧
        l.Holds u hex := by
  induction ls with
  | nil => simp
  | cons l ls ih =>
    have later : (∀ rest, ¬ l.Holds u rest) → ((∃ pre l' post, ls = pre ++ l' :: post ∧
        (∀ l'' ∈ pre, ∀ rest, ¬ l''.Holds u rest) ∧ l'.Holds u hex) ↔
          ∃ pre l' post, l :: ls = pre ++ l' :: post ∧
            (∀ l'' ∈ pre, ∀ rest, ¬ l''.Holds u rest) ∧ l'.Holds u hex) := by
      intro hl
      constructor
      · rintro ⟨pre, l', post, rfl, hpre, hl'⟩
        exact ⟨l :: pre, l', post, rfl, List.forall_mem_cons.mpr ⟨hl, hpre⟩, hl'⟩
      · rintro ⟨pre, l', post, hls, hpre, hl'⟩
        cases pre with
        | nil =>
          cases hls
          exact absurd hl' (hl hex)
        | cons p pre =>
          cases hls
          exact ⟨pre, l', post, rfl, (List.forall_mem_cons.mp hpre).2, hl'⟩
    rw [List.filterMap_cons]
    cases hacc : l.account with
    | none =>
      refine ih.trans (later fun rest hrest => ?_)
      cases hacc.symm.trans (UsersLine.account_eq_some.mpr hrest)
    | some p =>
      obtain ⟨name, rest⟩ := p
      dsimp only
      by_cases hu : u = name
      · subst hu
        rw [List.lookup_cons_self]
        constructor
        · rintro ⟨⟩
          exact ⟨[], l, ls, rfl, nofun, UsersLine.account_eq_some.mp hacc⟩
        · rintro ⟨pre, l', post, hls, hpre, hl'⟩
          cases pre with
          | nil =>
            cases hls
            cases hacc.symm.trans (UsersLine.account_eq_some.mpr hl')
            rfl
          | cons p pre =>
            cases hls
            exact absurd (UsersLine.account_eq_some.mp hacc) (hpre l List.mem_cons_self rest)
      · rw [List.lookup_cons, beq_eq_false_iff_ne.mpr hu, ih]
        refine later fun rest' hrest => hu ?_
        cases hacc.symm.trans (UsersLine.account_eq_some.mpr hrest)
        rfl

end UsersFileLemmas

/-- On a well-formed file the first line of the name decides: the answer is 1 exactly if there is
one and it has 64 digits that decode to the hash. -/
theorem verifyCredentials_iff (f : UsersFile) (uninit : Nat → UInt8) (u : Arg) (h : Buf 32) :
    verifyCredentials (some f.bytes) uninit u.bytes h = true ↔
      ∃ pre l post hex, f.lines = pre ++ l :: post ∧
        (∀ l' ∈ pre, ∀ rest, ¬ l'.Holds u.bytes rest) ∧ l.Holds u.bytes hex ∧
          hex.length = 64 ∧ decodePairs hex = some h.bytes := by
  have hdecode : ∀ l hex, UsersLine.Holds l u.bytes hex → hex.length = 64 →
      (h.bytes = decodeHash uninit hex ↔ decodePairs hex = some h.bytes) := by
    rintro l hex ⟨tail, ht, hname, rfl⟩ hlen
    rw [decodeHash_eq uninit hlen (l.hash _ _ ht hname hlen), Option.some.injEq]
    exact eq_comm
  show verifyChunks uninit u.bytes h (fgetsChunks 256 [] f.bytes) = true ↔ _
  rw [verifyChunks_iff]
  show (∃ hex, (entries f.bytes).lookup u.bytes = some hex ∧ _) ↔ _
  rw [entries_lines]
  constructor
  · rintro ⟨hex, hlook, hlen, hh⟩
    obtain ⟨pre, l, post, hls, hpre, hl⟩ := lookup_account.mp hlook
    exact ⟨pre, l, post, hex, hls, hpre, hl, hlen, (hdecode l hex hl hlen).mp hh⟩
  · rintro ⟨pre, l, post, hex, hls, hpre, hl, hlen, hh⟩
    exact ⟨hex, lookup_account.mpr ⟨pre, l, post, hls, hpre, hl⟩, hlen,
      (hdecode l hex hl hlen).mpr hh⟩

/-- A line from its text, by what stands behind the first colon. -/
def UsersLine.ofText (text : Bytes) (noNewline : newline ∉ text) (nulFree : 0 ∉ text)
    (short : text.length ≤ 253) (hash : ∀ p ∈ splitColon text, (stripEol p.2).length = 64 →
      ∀ c ∈ stripEol p.2, (hexValue c).isSome = true) : UsersLine where
  text
  noNewline
  nulFree
  short
  hash name rest ht hname := hash (name, rest) (splitColon_eq_some.mpr ⟨ht, hname⟩)

/-- `ann` behind a CRLF line end, `bob` without a hash, and `abc` in a line that is not ended. The
digits of `abc` are `aB`. -/
def threeLines : UsersFile where
  ended :=
    [(.ofText ([97, 110, 110, 58] ++ List.replicate 64 48) (by decide) (by decide) (by decide)
        (by decide +kernel), .crlf),
      (.ofText [98, 111, 98] (by decide) (by decide) (by decide) (by decide), .lf)]
  last := some (.ofText ([97, 98, 99, 58] ++ (List.replicate 32 [97, 66]).flatten) (by decide)
    (by decide) (by decide) (by decide +kernel))

theorem verifyCredentials_threeLines : verifyCredentials (some threeLines.bytes) (fun _ => 0)
    [97, 98, 99] ⟨List.replicate 32 171, rfl⟩ = true := by
  -- the lines before the last are of other names
  have other (l : UsersLine) (h : l.account.map Prod.fst ≠ some [97, 98, 99]) (rest : Bytes) :
      ¬ l.Holds [97, 98, 99] rest := fun hl => h (by
    rw [UsersLine.account_eq_some.mpr hl]
    rfl)
  refine (verifyCredentials_iff threeLines _ ⟨[97, 98, 99], by decide⟩ _).mpr
    ⟨_, _, [], (List.replicate 32 [97, 66]).flatten, rfl, ?_, ?_, by decide, by decide +kernel⟩
  · exact List.forall_mem_cons.mpr ⟨other _ (by decide +kernel),
      List.forall_mem_singleton.mpr (other _ (by decide +kernel))⟩
  · exact UsersLine.account_eq_some.mp (by decide +kernel)

end SquimpChat
