import SquimpChat.Credentials

/-!
# Writing and reading accounts

`sqmp-add-user` appends a line `name:hash` to the users file, unless a line of that name is
there, and `verify_credentials` looks a name up in it. Neither escapes anything, and both read
the file in `fgets` chunks. A name that contains a colon or a newline, or whose line is longer
than a chunk, is written and reported as added, but no reader finds it again.

Results:
1. `entries_file`: the readers see the accounts of a file that was written under names that
   can be stored.
2. `accounts_agree_iff`: the writer and the reader agree exactly if every name that is written
   can be stored.
3. `colon_in_name`: an account that is added and cannot be used.
-/

namespace SquimpChat
open Octets

/-- An argument of a program. -/
structure Arg where
  bytes : Bytes
  nulFree : 0 ∉ bytes
deriving DecidableEq

/-- A run of `sqmp-add-user`; `writable` says that `fopen(users_file, "a")` succeeds. -/
structure Invocation where
  username : Arg
  password : Arg
  writable : Bool := true

/-- How a run of `sqmp-add-user` ends. -/
inductive AddUserResult where
  | empty | forbidden | exists | cannotOpen | added
deriving DecidableEq

def AddUserResult.exitCode : AddUserResult → Nat
  | added => 0
  | _ => 1

/-- `"exit"`, `"quit"`, `"r"` and `"reply"`. -/
def forbiddenNames : List Bytes :=
  [[101, 120, 105, 116], [113, 117, 105, 116], [114], [114, 101, 112, 108, 121]]

/-- The loop of `main` that looks for a line of the same name. -/
def hasUser (username : Bytes) : List Bytes → Bool
  | [] => false
  | line :: rest =>
    match splitColon (cString line) with
    | none => hasUser username rest
    | some (name, _) =>
      if name.length = username.length ∧ line.take username.length = username then true
      else hasUser username rest

/-- A digit of `%x`. -/
def hexChar (x : UInt8) : UInt8 := if x < 10 then x + 48 else x + 87

/-- `%02x`, for each byte. -/
def hexOf (bs : Bytes) : Bytes := bs.flatMap fun b => [hexChar (b / 16), hexChar (b % 16)]

/-- What `main` appends to the users file. -/
def accountLine (username : Bytes) (hash : Buf 32) : Bytes :=
  username ++ colon :: hexOf hash.bytes ++ [newline]

/-- `main` of `sqmp-add-user`: the users file behind the run, and how it ends. `users` is the
content of the file, `none` when it cannot be opened for reading. -/
def sqmpAddUser (sha256 : Bytes → Buf 32) (users : Option Bytes) (r : Invocation) :
    Option Bytes × AddUserResult :=
  if r.username.bytes.length = 0 then (users, .empty)
  else if r.username.bytes ∈ forbiddenNames then (users, .forbidden)
  else if users.any fun f => hasUser r.username.bytes (fgetsChunks 256 [] f) then (users, .exists)
  else if r.writable then
    (some (users.getD [] ++ accountLine r.username.bytes (sha256 r.password.bytes)), .added)
  else (users, .cannotOpen)

/-- The users file after some runs. -/
def usersAfter (sha256 : Bytes → Buf 32) (users : Option Bytes) : List Invocation → Option Bytes
  | [] => users
  | r :: rs => usersAfter sha256 (sqmpAddUser sha256 users r).1 rs

/-- The runs that return 0. -/
def succeeded (sha256 : Bytes → Buf 32) (users : Option Bytes) : List Invocation → List Invocation
  | [] => []
  | r :: rs =>
    let o := sqmpAddUser sha256 users r
    if o.2.exitCode = 0 then r :: succeeded sha256 o.1 rs else succeeded sha256 o.1 rs

section Law

variable (sha256 : Bytes → Buf 32) (uninit : Nat → UInt8)

/-- The writer and the reader agree, from an empty users file on. -/
structure AccountsAgree (runs : List Invocation) : Prop where
  verified : ∀ (u : Arg) (h : Buf 32),
    verifyCredentials (usersAfter sha256 (some []) runs) uninit u.bytes h = true ↔
      ∃ r ∈ succeeded sha256 (some []) runs, r.username = u ∧ sha256 r.password.bytes = h
  usable : ∀ pre r post, runs = pre ++ r :: post →
    let users := usersAfter sha256 (some []) pre
    let o := sqmpAddUser sha256 users r
    o.2.exitCode = 0 →
      verifyCredentials o.1 uninit r.username.bytes (sha256 r.password.bytes) = true
  others : ∀ pre r post, runs = pre ++ r :: post →
    let users := usersAfter sha256 (some []) pre
    let o := sqmpAddUser sha256 users r
    o.2.exitCode = 0 → ∀ (u : Arg) (h : Buf 32), u ≠ r.username →
      verifyCredentials o.1 uninit u.bytes h = verifyCredentials users uninit u.bytes h

end Law

/-- A name whose line can be read back. -/
def Storable (name : Bytes) : Prop := colon ∉ name ∧ newline ∉ name ∧ name.length ≤ 190

instance (name : Bytes) : Decidable (Storable name) := inferInstanceAs (Decidable (_ ∧ _))

/-! ## 1. Hexadecimal digits -/

namespace AccountLemmas

theorem hexDigit_hexChar {x : UInt8} (hx : x.toNat < 16) : hexDigit (hexChar x) = some x := by
  have digits : ∀ n < 16, hexDigit (hexChar (UInt8.ofNat n)) = some (UInt8.ofNat n) := by decide
  simpa using digits x.toNat hx

/-- A digit is no space, no sign, no colon and no line end. -/
theorem hexChar_plain {x : UInt8} (hx : x.toNat < 16) : isSpace (hexChar x) = false ∧
    hexChar x ≠ 43 ∧ hexChar x ≠ 45 ∧ hexChar x ≠ newline ∧ hexChar x ≠ carriageReturn ∧
      hexChar x ≠ 0 := by
  have digits : ∀ n < 16, isSpace (hexChar (UInt8.ofNat n)) = false ∧
      hexChar (UInt8.ofNat n) ≠ 43 ∧ hexChar (UInt8.ofNat n) ≠ 45 ∧
      hexChar (UInt8.ofNat n) ≠ newline ∧ hexChar (UInt8.ofNat n) ≠ carriageReturn ∧
      hexChar (UInt8.ofNat n) ≠ 0 := by decide
  simpa using digits x.toNat hx

theorem high_lt (b : UInt8) : (b / 16).toNat < 16 := by
  have := b.toNat_lt
  simp only [UInt8.toNat_div, UInt8.reduceToNat]
  omega

theorem low_lt (b : UInt8) : (b % 16).toNat < 16 := by
  simp only [UInt8.toNat_mod, UInt8.reduceToNat]
  omega

theorem halves (b : UInt8) : 16 * (b / 16) + b % 16 = b := by
  have := b.toNat_lt
  apply UInt8.toNat_inj.mp
  simp only [UInt8.toNat_add, UInt8.toNat_mul, UInt8.toNat_div, UInt8.toNat_mod, UInt8.reduceToNat]
  omega

/-- `sscanf` reads back what `fprintf` wrote for a byte. -/
theorem sscanf02x_hexOf (b : UInt8) (bs : Bytes) : sscanf02x (hexOf (b :: bs)) = some b := by
  obtain ⟨hspace, hplus, hminus, _⟩ := hexChar_plain (high_lt b)
  have hcons : hexOf (b :: bs) = hexChar (b / 16) :: hexChar (b % 16) :: hexOf bs := rfl
  rw [sscanf02x, hcons, List.dropWhile_cons_of_neg (by simp [hspace]), scanHex]
  simp [hplus, hminus, hexDigit_hexChar (high_lt b), hexDigit_hexChar (low_lt b), halves]

theorem length_hexOf (bs : Bytes) : (hexOf bs).length = 2 * bs.length := by
  induction bs with
  | nil => rfl
  | cons b bs ih =>
    have hcons : hexOf (b :: bs) = hexChar (b / 16) :: hexChar (b % 16) :: hexOf bs := rfl
    simp only [hcons, List.length_cons, ih]
    omega

theorem drop_hexOf (i : Nat) (bs : Bytes) : (hexOf bs).drop (2 * i) = hexOf (bs.drop i) := by
  induction i generalizing bs with
  | zero => rfl
  | succ i ih =>
    cases bs with
    | nil => simp [hexOf]
    | cons b bs => exact ih bs

theorem mem_hexOf {bs : Bytes} {c : UInt8} (h : c ∈ hexOf bs) :
    c ≠ newline ∧ c ≠ carriageReturn ∧ c ≠ 0 := by
  obtain ⟨b, _, hc⟩ := List.mem_flatMap.mp h
  rcases List.mem_cons.mp hc with rfl | hc
  · exact (hexChar_plain (high_lt b)).2.2.2
  · cases List.mem_singleton.mp hc
    exact (hexChar_plain (low_lt b)).2.2.2

/-- The digits of a hash are decoded to the hash. -/
theorem decodeHash_hexOf (uninit : Nat → UInt8) (h : Buf 32) :
    decodeHash uninit (hexOf h.bytes) = h.bytes := by
  refine List.ext_getElem (by simp [decodeHash, h.length_eq]) fun i hi hi' => ?_
  simp only [decodeHash, List.getElem_map, List.getElem_range, drop_hexOf,
    List.drop_eq_getElem_cons hi', sscanf02x_hexOf, Option.getD_some]

end AccountLemmas
open AccountLemmas

/-! ## 2. What the readers see of the file -/

/-- The name and the digits in a chunk. -/
def entryOf (line : Bytes) : Option (Bytes × Bytes) :=
  (splitColon (cString line)).map fun p => (p.1, stripEol p.2)

def entries (f : Bytes) : List (Bytes × Bytes) := (fgetsChunks 256 [] f).filterMap entryOf

/-- Accounts under names that can be stored, at most one under a name. -/
structure Book where
  accounts : List (Arg × Buf 32)
  storable : ∀ a ∈ accounts, Storable a.1.bytes
  distinct : (accounts.map Prod.fst).Nodup

namespace Book

def empty : Book := ⟨[], by simp, List.nodup_nil⟩

/-- The users file that holds the accounts. -/
def file (b : Book) : Bytes := b.accounts.flatMap fun a => accountLine a.1.bytes a.2

def add (b : Book) (u : Arg) (h : Buf 32) (hs : Storable u.bytes)
    (hnew : u ∉ b.accounts.map Prod.fst) : Book where
  accounts := b.accounts ++ [(u, h)]
  storable := List.forall_mem_append.mpr ⟨b.storable, by simpa using hs⟩
  distinct := by
    rw [List.map_append, List.nodup_append]
    refine ⟨b.distinct, by simp, fun u' hu' v hv => ?_⟩
    cases List.mem_singleton.mp hv
    rintro rfl
    exact hnew hu'

theorem file_add (b : Book) {u : Arg} {h : Buf 32} (hs : Storable u.bytes)
    (hnew : u ∉ b.accounts.map Prod.fst) :
    (b.add u h hs hnew).file = b.file ++ accountLine u.bytes h := by
  simp [file, add]

end Book

namespace AccountLemmas

variable {u : Bytes} {lines : List Bytes}

theorem entryOf_eq_some {line name hex : Bytes} (h : entryOf line = some (name, hex)) :
    ∃ tail, cString line = name ++ colon :: tail ∧ colon ∉ name ∧ stripEol tail = hex := by
  obtain ⟨⟨_, tail⟩, hsplit, heq⟩ := Option.map_eq_some_iff.mp h
  cases heq
  obtain ⟨hs, hname⟩ := splitColon_eq_some.mp hsplit
  exact ⟨tail, hs, hname, rfl⟩

/-- `verify_credentials` decides by the first entry of the name. -/
theorem verifyChunks_iff {uninit : Nat → UInt8} {h : Buf 32} :
    verifyChunks uninit u h lines = true ↔ ∃ hex, (lines.filterMap entryOf).lookup u = some hex ∧
      hex.length = 64 ∧ h.bytes = decodeHash uninit hex := by
  induction lines with
  | nil => simp [verifyChunks]
  | cons line rest ih =>
    rw [verifyChunks, List.filterMap_cons, entryOf]
    cases hsplit : splitColon (cString line) with
    | none => exact ih
    | some p =>
      obtain ⟨name, tail⟩ := p
      dsimp only [Option.map_some]
      by_cases hu : u = name
      · subst hu
        rw [List.lookup_cons_self]
        by_cases hlen : (stripEol tail).length = 64 <;> simp [hlen]
      · rw [if_pos hu, ih, List.lookup_cons, beq_eq_false_iff_ne.mpr hu]

/-- `sqmp-add-user` rejects the names of all entries. -/
theorem hasUser_iff : hasUser u lines = true ↔ u ∈ (lines.filterMap entryOf).map Prod.fst := by
  induction lines with
  | nil => simp [hasUser]
  | cons line rest ih =>
    rw [hasUser, List.filterMap_cons, entryOf]
    cases hsplit : splitColon (cString line) with
    | none => exact ih
    | some p =>
      obtain ⟨name, tail⟩ := p
      dsimp only [Option.map_some]
      obtain ⟨after, hline⟩ : cString line <+: line := List.takeWhile_prefix _
      rw [(splitColon_eq_some.mp hsplit).1, List.append_assoc] at hline
      have htake : name.length = u.length ∧ line.take u.length = u ↔ u = name := by
        rw [← hline]
        constructor
        · rintro ⟨hlen, htake⟩
          rw [← hlen, List.take_left] at htake
          exact htake.symm
        · rintro rfl
          exact ⟨rfl, List.take_left⟩
      rw [List.map_cons, List.mem_cons, ← ih]
      by_cases hu : u = name
      · simp [htake.mpr hu, hu]
      · simp [mt htake.mp hu, hu]

theorem stripEol_hexOf (bs : Bytes) {eol : Bytes} (heol : ∀ c ∈ eol, c = newline) :
    stripEol (hexOf bs ++ eol) = hexOf bs := by
  have hdrop : (hexOf bs).reverse.dropWhile (fun c => c == newline || c == carriageReturn) =
      (hexOf bs).reverse := by
    rw [List.dropWhile_eq_self_iff]
    intro hl
    obtain ⟨hnl, hcr, _⟩ := mem_hexOf (List.mem_reverse.mp (List.getElem_mem hl))
    rw [beq_eq_false_iff_ne.mpr hnl, beq_eq_false_iff_ne.mpr hcr]
    exact Bool.false_ne_true
  rw [stripEol, List.reverse_append, List.dropWhile_append_of_pos, hdrop, List.reverse_reverse]
  intro c hc
  simp [heol c (List.mem_reverse.mp hc)]

/-- An account is read off the chunk of its line, with or without the newline. -/
theorem entryOf_line {u : Arg} {h : Buf 32} {eol : Bytes} (hs : Storable u.bytes)
    (heol : ∀ c ∈ eol, c = newline) :
    entryOf (u.bytes ++ colon :: hexOf h.bytes ++ eol) = some (u.bytes, hexOf h.bytes) := by
  have hplain : 0 ∉ u.bytes ++ colon :: hexOf h.bytes ++ eol := by
    simp only [List.mem_append, List.mem_cons, not_or]
    refine ⟨⟨u.nulFree, by decide, fun hmem => (mem_hexOf hmem).2.2 rfl⟩, fun hmem => ?_⟩
    exact absurd (heol 0 hmem) (by decide)
  have hsplit : splitColon (u.bytes ++ colon :: hexOf h.bytes ++ eol) =
      some (u.bytes, hexOf h.bytes ++ eol) :=
    splitColon_eq_some.mpr ⟨by simp, hs.1⟩
  rw [entryOf, cString_eq_self.mpr hplain, hsplit, Option.map_some, stripEol_hexOf _ heol]

theorem entries_cons {u : Arg} (h : Buf 32) (f : Bytes) (hs : Storable u.bytes) :
    entries (accountLine u.bytes h ++ f) = (u.bytes, hexOf h.bytes) :: entries f := by
  have hbody : newline ∉ u.bytes ++ colon :: hexOf h.bytes := by
    simp only [List.mem_append, List.mem_cons, not_or]
    exact ⟨hs.2.1, by decide, fun hmem => (mem_hexOf hmem).1 rfl⟩
  have hlen : (u.bytes ++ colon :: hexOf h.bytes).length = u.bytes.length + 65 := by
    simp only [List.length_append, List.length_cons, length_hexOf, h.length_eq]
  have hle := hs.2.2
  rw [entries, accountLine, List.append_assoc, List.singleton_append]
  rcases Nat.lt_or_ge u.bytes.length 190 with hlt | hge
  · rw [fgetsChunks_line hbody (by omega), List.filterMap_cons, entryOf_line hs (by simp)]
    rfl
  · -- the line fills a chunk, and its newline is a chunk with no entry
    have hnil : newline ∉ ([] : Bytes) := List.not_mem_nil
    have hblank : fgetsChunks 256 [] (newline :: f) = [newline] :: fgetsChunks 256 [] f :=
      fgetsChunks_line hnil (by decide)
    have hnoeol : ∀ c ∈ ([] : Bytes), c = newline := by simp
    have hfull := entryOf_line (h := h) hs hnoeol
    rw [List.append_nil] at hfull
    rw [fgetsChunks_line_full hbody (by omega) (by simp), hblank, List.filterMap_cons, hfull]
    rfl

end AccountLemmas

/-- The readers see the accounts of the file. -/
theorem entries_file (b : Book) :
    entries b.file = b.accounts.map fun a => (a.1.bytes, hexOf a.2.bytes) := by
  have hall := b.storable
  rw [Book.file]
  generalize b.accounts = l at hall
  induction l with
  | nil => rfl
  | cons a l ih =>
    obtain ⟨ha, hl⟩ := List.forall_mem_cons.mp hall
    rw [List.flatMap_cons, entries_cons a.2 _ ha, ih hl, List.map_cons]

/-! ## 3. The writer against the reader -/

namespace AccountLemmas

variable (sha256 : Bytes → Buf 32) {uninit : Nat → UInt8} {r : Invocation}
  {runs : List Invocation}

theorem bytes_inj {u v : Arg} : u.bytes = v.bytes ↔ u = v := by
  cases u
  cases v
  simp

theorem lookup_accounts {l : List (Arg × Buf 32)} {u : Arg} {hex : Bytes}
    (hd : (l.map Prod.fst).Nodup) :
    (l.map fun a => (a.1.bytes, hexOf a.2.bytes)).lookup u.bytes = some hex ↔
      ∃ h, (u, h) ∈ l ∧ hex = hexOf h.bytes := by
  induction l with
  | nil => simp
  | cons a l ih =>
    obtain ⟨v, h⟩ := a
    obtain ⟨hnew, hd⟩ := List.nodup_cons.mp hd
    rw [List.map_cons]
    by_cases hu : u = v
    · subst hu
      rw [List.lookup_cons_self]
      constructor
      · rintro heq
        cases heq
        exact ⟨h, List.mem_cons_self, rfl⟩
      · rintro ⟨h', hmem, rfl⟩
        rcases List.mem_cons.mp hmem with heq | hmem
        · cases heq
          rfl
        · exact absurd (List.mem_map_of_mem hmem) hnew
    · have hne : (u.bytes == v.bytes) = false := beq_eq_false_iff_ne.mpr (mt bytes_inj.mp hu)
      rw [List.lookup_cons, hne, ih hd]
      simp [hu]

/-- `verify_credentials` accepts the accounts of the file and no others. -/
theorem verify_file (b : Book) {u : Arg} {h : Buf 32} :
    verifyCredentials (some b.file) uninit u.bytes h = true ↔ (u, h) ∈ b.accounts := by
  show verifyChunks uninit u.bytes h _ = true ↔ _
  rw [verifyChunks_iff]
  have hentries : (fgetsChunks 256 [] b.file).filterMap entryOf = _ := entries_file b
  simp only [hentries, lookup_accounts b.distinct]
  constructor
  · rintro ⟨_, ⟨h', hmem, rfl⟩, _, hdec⟩
    rw [decodeHash_hexOf] at hdec
    rwa [Buf.ext_bytes hdec]
  · intro hmem
    exact ⟨_, ⟨h, hmem, rfl⟩, by rw [length_hexOf, h.length_eq], (decodeHash_hexOf uninit h).symm⟩

/-- A name that `verify_credentials` accepts can be stored, whatever the file holds. -/
theorem storable_of_verify {users : Option Bytes} {u : Bytes} {h : Buf 32}
    (hv : verifyCredentials users uninit u h = true) : Storable u := by
  cases users with
  | none => cases hv
  | some f =>
    obtain ⟨hex, hlookup, hlen, _⟩ := verifyChunks_iff.mp hv
    obtain ⟨pre, post, hl, _⟩ := List.lookup_eq_some_iff.mp hlookup
    have hmem : (u, hex) ∈ (fgetsChunks 256 [] f).filterMap entryOf := by simp [hl]
    obtain ⟨line, hline, hentry⟩ := List.mem_filterMap.mp hmem
    obtain ⟨tail, hstr, hcolon, rfl⟩ := entryOf_eq_some hentry
    have hsize : ([] : Bytes).length + 2 ≤ 256 := by decide
    obtain ⟨hle, hnl⟩ := mem_fgetsChunks List.not_mem_nil hsize hline
    obtain ⟨after, hafter⟩ : cString line <+: line := List.takeWhile_prefix _
    rw [← hafter, hstr] at hle hnl
    refine ⟨hcolon, fun hmem => hnl ?_, ?_⟩
    · rw [List.append_assoc, List.dropLast_append_of_ne_nil (by simp)]
      exact List.mem_append_left _ hmem
    · have hstrip : (stripEol tail).length ≤ tail.length := by
        have hdrop := (List.dropWhile_sublist (fun b => b == newline || b == carriageReturn)
          (l := tail.reverse)).length_le
        rwa [List.length_reverse, ← List.length_reverse] at hdrop
      simp only [List.length_append, List.length_cons] at hle
      omega

/-- A run over a file of accounts. -/
theorem sqmpAddUser_file (b : Book) (r : Invocation) : sqmpAddUser sha256 (some b.file) r =
    if r.username.bytes.length = 0 then (some b.file, .empty)
    else if r.username.bytes ∈ forbiddenNames then (some b.file, .forbidden)
    else if r.username ∈ b.accounts.map Prod.fst then (some b.file, .exists)
    else if r.writable then
      (some (b.file ++ accountLine r.username.bytes (sha256 r.password.bytes)), .added)
    else (some b.file, .cannotOpen) := by
  have hentries : (fgetsChunks 256 [] b.file).filterMap entryOf = _ := entries_file b
  have hexists : (some b.file).any (fun f => hasUser r.username.bytes (fgetsChunks 256 [] f)) =
      true ↔ r.username ∈ b.accounts.map Prod.fst := by
    rw [Option.any_some, hasUser_iff, hentries]
    simp [bytes_inj]
  simp only [sqmpAddUser, hexists, Option.getD_some]

theorem forbiddenNames_storable : ∀ name ∈ forbiddenNames, Storable name := by decide

/-- A run over a file of accounts that can write adds one, or its name can be stored. -/
theorem added_or_storable (b : Book) (hw : r.writable = true) :
    (sqmpAddUser sha256 (some b.file) r).2.exitCode = 0 ∨ Storable r.username.bytes := by
  rw [sqmpAddUser_file]
  split
  · next hlen =>
    rw [List.length_eq_zero_iff.mp hlen]
    exact .inr (by decide)
  · split
    · next hmem => exact .inr (forbiddenNames_storable _ hmem)
    · split
      · next hmem =>
        obtain ⟨a, ha, heq⟩ := List.mem_map.mp hmem
        exact .inr (heq ▸ b.storable a ha)
      · exact .inl rfl

/-- What a run does to a file of accounts. -/
theorem book_step (b : Book) (hs : r.writable = true → Storable r.username.bytes) :
    let o := sqmpAddUser sha256 (some b.file) r
    (o.2.exitCode = 0 ∧ ∃ b' : Book, o.1 = some b'.file ∧
      b'.accounts = b.accounts ++ [(r.username, sha256 r.password.bytes)]) ∨
    (o.2.exitCode ≠ 0 ∧ o.1 = some b.file) := by
  rw [sqmpAddUser_file]
  split
  · exact .inr ⟨Nat.one_ne_zero, rfl⟩
  · split
    · exact .inr ⟨Nat.one_ne_zero, rfl⟩
    · split
      · exact .inr ⟨Nat.one_ne_zero, rfl⟩
      · next hnew =>
        split
        · next hw =>
          refine .inl ⟨rfl, b.add r.username (sha256 r.password.bytes) (hs hw) hnew, ?_, rfl⟩
          rw [b.file_add]
        · exact .inr ⟨Nat.one_ne_zero, rfl⟩

/-- The accounts of the file are those of the runs that returned 0. -/
theorem book_run (b : Book) (hs : ∀ r ∈ runs, r.writable = true → Storable r.username.bytes) :
    ∃ b' : Book, usersAfter sha256 (some b.file) runs = some b'.file ∧ b'.accounts = b.accounts ++
      (succeeded sha256 (some b.file) runs).map fun r => (r.username, sha256 r.password.bytes) := by
  induction runs generalizing b with
  | nil => exact ⟨b, rfl, by simp [succeeded]⟩
  | cons r runs ih =>
    obtain ⟨hr, htl⟩ := List.forall_mem_cons.mp hs
    rcases book_step sha256 b hr with ⟨hexit, b₁, hfile, hacc⟩ | ⟨hexit, hfile⟩
    · obtain ⟨b₂, hfile₂, hacc₂⟩ := ih b₁ htl
      refine ⟨b₂, by rw [usersAfter, hfile, hfile₂], ?_⟩
      simp [succeeded, hexit, hfile, hacc₂, hacc]
    · obtain ⟨b₂, hfile₂, hacc₂⟩ := ih b htl
      refine ⟨b₂, by rw [usersAfter, hfile, hfile₂], ?_⟩
      simp [succeeded, hexit, hfile, hacc₂]

/-- If only names that can be stored were added, no other was tried. -/
theorem storable_of_succeeded (b : Book)
    (hs : ∀ r ∈ succeeded sha256 (some b.file) runs, Storable r.username.bytes) :
    ∀ r ∈ runs, r.writable = true → Storable r.username.bytes := by
  induction runs generalizing b with
  | nil => simp
  | cons r runs ih =>
    have hr : r.writable = true → Storable r.username.bytes := by
      intro hw
      rcases added_or_storable sha256 b hw with hexit | hst
      · exact hs r (by simp [succeeded, hexit])
      · exact hst
    refine List.forall_mem_cons.mpr ⟨hr, ?_⟩
    rcases book_step sha256 b hr with ⟨hexit, b', hfile, _⟩ | ⟨hexit, hfile⟩
    · exact ih b' fun r' hr' => hs r' (by simp [succeeded, hexit, hfile, hr'])
    · exact ih b fun r' hr' => hs r' (by simp [succeeded, hexit, hfile, hr'])

/-- What a successful run does, behind any other runs. -/
theorem book_added {pre post : List Invocation}
    (hs : ∀ r' ∈ pre ++ r :: post, r'.writable = true → Storable r'.username.bytes)
    (hexit : (sqmpAddUser sha256 (usersAfter sha256 (some []) pre) r).2.exitCode = 0) :
    ∃ b b' : Book, usersAfter sha256 (some []) pre = some b.file ∧
      (sqmpAddUser sha256 (some b.file) r).1 = some b'.file ∧
      b'.accounts = b.accounts ++ [(r.username, sha256 r.password.bytes)] := by
  obtain ⟨hpre, hpost⟩ := List.forall_mem_append.mp hs
  obtain ⟨b, hb, _⟩ := book_run sha256 .empty hpre
  rw [show some [] = some Book.empty.file from rfl, hb] at hexit
  rcases book_step sha256 b (hpost r List.mem_cons_self) with ⟨_, b', hb', hacc⟩ | ⟨hne, _⟩
  · exact ⟨b, b', hb, hb', hacc⟩
  · exact absurd hexit hne

end AccountLemmas
open AccountLemmas

/-- The writer and the reader agree exactly if each name that a run could write can be read
back. -/
theorem accounts_agree_iff (sha256 : Bytes → Buf 32) (uninit : Nat → UInt8)
    (runs : List Invocation) : AccountsAgree sha256 uninit runs ↔
      ∀ r ∈ runs, r.writable = true → Storable r.username.bytes := by
  constructor
  · intro h
    refine storable_of_succeeded sha256 .empty fun r hr => ?_
    exact storable_of_verify ((h.verified r.username _).mpr ⟨r, hr, rfl, rfl⟩)
  · intro hs
    refine ⟨fun u h => ?_, fun pre r post hruns => ?_, fun pre r post hruns => ?_⟩
    · obtain ⟨b, hb, hacc⟩ := book_run sha256 .empty hs
      rw [show some [] = some Book.empty.file from rfl, hb, verify_file, hacc]
      simp [Book.empty]
    · intro users o hexit
      obtain ⟨b, b', hb, hb', hacc⟩ := book_added sha256 (hruns ▸ hs) hexit
      show verifyCredentials (sqmpAddUser sha256 (usersAfter sha256 (some []) pre) r).1 _ _ _ = _
      rw [hb, hb', verify_file, hacc]
      simp
    · intro users o hexit u h hne
      obtain ⟨b, b', hb, hb', hacc⟩ := book_added sha256 (hruns ▸ hs) hexit
      show verifyCredentials (sqmpAddUser sha256 (usersAfter sha256 (some []) pre) r).1 _ _ _ =
        verifyCredentials (usersAfter sha256 (some []) pre) _ _ _
      rw [hb, hb', Bool.eq_iff_iff, verify_file, verify_file, hacc]
      simp [hne]

/-! ## 4. A concrete run -/

/-- The SHA-256 of `b`. -/
def bHash : Buf 32 :=
  ⟨[62, 35, 232, 22, 0, 57, 89, 74, 51, 137, 79, 101, 100, 225, 177, 52, 139, 189, 122, 0, 136,
    212, 44, 74, 203, 115, 238, 174, 213, 156, 0, 157], by decide⟩

/-- SHA-256 at the password `b`, and zeros elsewhere. -/
def bSha256 (p : Bytes) : Buf 32 := if p = [98] then bHash else Buf.zero 32

/-- `sqmp-add-user a:b b`. -/
def addAB : Invocation where
  username := ⟨[97, 58, 98], by decide⟩
  password := ⟨[98], by decide⟩

/-- `a:b` is reported as added, and its password is not accepted. -/
theorem colon_in_name : (sqmpAddUser bSha256 (some []) addAB).2 = .added ∧
    ¬ AccountsAgree bSha256 (fun _ => 0) [addAB] := by
  refine ⟨by decide, fun h => ?_⟩
  have hadded : addAB ∈ succeeded bSha256 (some []) [addAB] := List.mem_singleton.mpr rfl
  have hv := (h.verified addAB.username bHash).mpr ⟨addAB, hadded, rfl, by decide⟩
  exact absurd hv (by decide +kernel)

end SquimpChat
