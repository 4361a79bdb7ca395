import SquimpChat.Wire

/-!
# Checking a login against the users file

`verifyCredentials` is `verify_credentials`: it reads the users file in `fgets`
chunks of at most 255 bytes, splits each at its first colon, and decides by the
first line of the given name. A name is compared as a C string.

The C code leaves a digit pair that `sscanf` does not accept to an uninitialised
variable; that value is the parameter `uninit`.
-/

namespace SquimpChat
open Octets

/-- `'\n'`, `'\r'` and `':'`. -/
def newline : UInt8 := 10
def carriageReturn : UInt8 := 13
def colon : UInt8 := 58

/-- The results of calling `fgets(line, size, f)` until the end of the file: a
chunk ends behind a newline or when it holds `size - 1` bytes. `cur` is the
chunk being filled, last byte first. -/
def fgetsChunks (size : Nat) (cur : Bytes) : Bytes → List Bytes
  | [] => if cur.isEmpty then [] else [cur.reverse]
  | b :: f =>
    if b == newline || cur.length + 2 == size then
      (b :: cur).reverse :: fgetsChunks size [] f
    else fgetsChunks size (b :: cur) f

/-- `strchr(line, ':')`: the parts before and behind the first colon. -/
def splitColon : Bytes → Option (Bytes × Bytes)
  | [] => none
  | b :: s =>
    if b == colon then some ([], s)
    else (splitColon s).map fun p => (b :: p.1, p.2)

/-- Strip the newlines and carriage returns at the end. -/
def stripEol (s : Bytes) : Bytes :=
  (s.reverse.dropWhile fun b => b == newline || b == carriageReturn).reverse

def isSpace (b : UInt8) : Bool := b == 32 || (9 ≤ b && b ≤ 13)

def hexDigit (b : UInt8) : Option UInt8 :=
  if 48 ≤ b && b ≤ 57 then some (b - 48)
  else if 97 ≤ b && b ≤ 102 then some (b - 87)
  else if 65 ≤ b && b ≤ 70 then some (b - 55)
  else none

/-- The digits of `%02x`: at most two characters, among them a sign or the `0x`
prefix if there is one; the value modulo 256. -/
def scanHex : Bytes → Option UInt8
  | a :: s =>
    if a == 43 then s.head?.bind hexDigit
    else if a == 45 then (s.head?.bind hexDigit).map (0 - ·)
    else (hexDigit a).map fun x =>
      match s.head?.bind hexDigit with
      | some y => 16 * x + y
      | none => x
  | [] => none

/-- `sscanf(s, "%02x", &b)`, after the cast to `uint8_t`; `none` when nothing matches. -/
def sscanf02x (s : Bytes) : Option UInt8 := scanHex (s.dropWhile isSpace)

/-- The 32 bytes decoded from the digits. -/
def decodeHash (uninit : Nat → UInt8) (hex : Bytes) : Bytes :=
  (List.range 32).map fun i => (sscanf02x (hex.drop (2 * i))).getD (uninit i)

/-- The loop of `verify_credentials` over the chunks. -/
def verifyChunks (uninit : Nat → UInt8) (username : Bytes) (passwordHash : Buf 32) :
    List Bytes → Bool
  | [] => false
  | line :: rest =>
    match splitColon (cString line) with
    | none => verifyChunks uninit username passwordHash rest
    | some (name, hex) =>
      if username ≠ name then verifyChunks uninit username passwordHash rest
      else if (stripEol hex).length ≠ 64 then false
      else passwordHash.bytes == decodeHash uninit (stripEol hex)

/-- `verify_credentials`; `users` is the content of the users file, `none` when it
cannot be opened, and `username` a C string. -/
def verifyCredentials (users : Option Bytes) (uninit : Nat → UInt8) (username : Bytes)
    (passwordHash : Buf 32) : Bool :=
  match users with
  | none => false
  | some f => verifyChunks uninit username passwordHash (fgetsChunks 256 [] f)

/-! ## Chunks and lines -/

section Chunks

variable {size : Nat} {cur body line f : Bytes}

theorem fgetsChunks_body (hbody : newline ∉ body) (hfit : cur.length + body.length + 2 ≤ size) :
    fgetsChunks size cur (body ++ f) = fgetsChunks size (body.reverse ++ cur) f := by
  induction body generalizing cur with
  | nil => rfl
  | cons b body ih =>
    obtain ⟨hb, htl⟩ := not_or.mp (mt List.mem_cons.mpr hbody)
    rw [List.length_cons] at hfit
    have hnl : (b == newline) = false := beq_eq_false_iff_ne.mpr fun h => hb h.symm
    have hlen : (cur.length + 2 == size) = false := beq_eq_false_iff_ne.mpr (by omega)
    have hstep : fgetsChunks size cur (b :: (body ++ f)) =
        fgetsChunks size (b :: cur) (body ++ f) := by
      rw [fgetsChunks, hnl, hlen]
      rfl
    rw [List.cons_append, hstep, ih htl (by rw [List.length_cons]; omega), List.reverse_cons,
      List.append_assoc]
    rfl

/-- A line that fits is a chunk of its own. -/
theorem fgetsChunks_line (hbody : newline ∉ body) (hfit : body.length + 2 ≤ size) :
    fgetsChunks size [] (body ++ newline :: f) =
      (body ++ [newline]) :: fgetsChunks size [] f := by
  rw [fgetsChunks_body hbody (by simpa using hfit), fgetsChunks, List.append_nil]
  simp

/-- A line that fills the chunk leaves its newline to the next one. -/
theorem fgetsChunks_line_full (hbody : newline ∉ body) (hfull : body.length + 1 = size)
    (hne : body ≠ []) :
    fgetsChunks size [] (body ++ newline :: f) =
      body :: fgetsChunks size [] (newline :: f) := by
  obtain ⟨init, b, rfl⟩ := List.eq_nil_or_concat body |>.resolve_left hne
  rw [List.concat_eq_append, List.mem_append, List.mem_singleton, not_or] at hbody
  simp only [List.concat_eq_append, List.length_append, List.length_singleton] at hfull
  have hlen : ((init.reverse ++ []).length + 2 == size) = true :=
    beq_iff_eq.mpr (by simp only [List.append_nil, List.length_reverse]; omega)
  rw [List.concat_eq_append, List.append_assoc, fgetsChunks_body hbody.1
    (by simp only [List.length_nil]; omega), List.singleton_append, fgetsChunks, hlen,
    Bool.or_true, if_pos rfl, List.append_nil, List.reverse_cons, List.reverse_reverse]

/-- A chunk is no longer than the buffer, and a newline ends it. -/
theorem mem_fgetsChunks (hcur : newline ∉ cur) (hfit : cur.length + 2 ≤ size)
    (h : line ∈ fgetsChunks size cur f) : line.length + 1 ≤ size ∧ newline ∉ line.dropLast := by
  induction f generalizing cur with
  | nil =>
    rw [fgetsChunks] at h
    split at h
    · cases h
    · cases List.mem_singleton.mp h
      refine ⟨by rw [List.length_reverse]; omega, fun hmem => hcur ?_⟩
      exact List.mem_reverse.mp ((List.dropLast_sublist _).mem hmem)
  | cons b f ih =>
    rw [fgetsChunks] at h
    split at h
    · rcases List.mem_cons.mp h with rfl | h
      · refine ⟨by simp only [List.length_reverse, List.length_cons]; omega, ?_⟩
        rwa [List.reverse_cons, List.dropLast_concat, List.mem_reverse]
      · exact ih List.not_mem_nil (by simp only [List.length_nil]; omega) h
    · next hb =>
      obtain ⟨hnl, hlen⟩ : (b == newline) = false ∧ (cur.length + 2 == size) = false := by
        simpa using hb
      refine ih ?_ ?_ h
      · exact mt List.mem_cons.mp (not_or.mpr ⟨(beq_eq_false_iff_ne.mp hnl).symm, hcur⟩)
      · have := beq_eq_false_iff_ne.mp hlen
        rw [List.length_cons]
        omega

/-- `strchr` splits at the first colon. -/
theorem splitColon_eq_some {s name rest : Bytes} :
    splitColon s = some (name, rest) ↔ s = name ++ colon :: rest ∧ colon ∉ name := by
  induction s generalizing name with
  | nil => simp [splitColon]
  | cons b s ih =>
    rw [splitColon]
    by_cases hb : b = colon
    · subst hb
      cases name with
      | nil => simp
      | cons c name => simp +contextual [eq_comm]
    · rw [if_neg (by simpa using hb)]
      cases name with
      | nil => simp [hb]
      | cons c name =>
        have hmap : (splitColon s).map (fun p => (b :: p.1, p.2)) = some (c :: name, rest) ↔
            b = c ∧ splitColon s = some (name, rest) := by
          cases splitColon s with
          | none => simp
          | some p => cases p; simp [and_assoc]
        rw [hmap, ih, List.cons_append, List.cons.injEq, List.mem_cons, not_or]
        constructor
        · rintro ⟨rfl, hs, hname⟩
          exact ⟨⟨rfl, hs⟩, Ne.symm hb, hname⟩
        · rintro ⟨⟨rfl, hs⟩, _, hname⟩
          exact ⟨rfl, hs, hname⟩

end Chunks

end SquimpChat
