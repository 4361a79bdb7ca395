import SquimpChat.RoundTrip

/-!
# What is typed at the login

`sqmp_login` reads the username with `fgets` into 33 bytes and the password with another
`fgets` from the same input. A username of 32 bytes fills the buffer and leaves its newline to
the password, which is then empty; a longer one leaves its rest, which becomes the password. The
length check behind the first `fgets` never sees more than 32 bytes.

Results:
1. `login_as_typed_iff`: the AUTH_REQ carries what was typed, or a long name is refused, exactly
   for usernames shorter than 32 bytes and for those of 32 whose password hashes as the empty one.
2. `long_name_sent`: a password replaced by the empty one, and a name of 33 bytes that is cut.
-/

namespace SquimpChat
open Octets RoundTripLemmas

/-- A typed line without its newline. -/
structure TypedLine where
  text : Bytes
  noNewline : newline ∉ text
  nulFree : 0 ∉ text

/-- Username and password on standard input, and what follows them. -/
def typedInput (u p : TypedLine) (rest : Bytes) : Bytes :=
  u.text ++ newline :: (p.text ++ newline :: rest)

/-- No call of OpenSSL for the key pair and no send fails. -/
structure ClientEnv.LoginSucceeds (env : ClientEnv) : Prop where
  keygen : ∀ n, (env.ssl.keygen n).isSome = true
  streamSend : ∀ n, env.streamSend n = true

/-- `sqmp_login` sends one AUTH_REQ with the username and the hash of the password, the one that
`sqmp-add-user` writes to the users file for them. -/
def SendsTyped (env : ClientEnv) (c : Client) (u p : TypedLine) (stdin : Bytes) : Prop :=
  ∃ sid m, (c.sqmpLogin env stdin).2 = .ok () ∧
    (c.sqmpLogin env stdin).1.trace = .sent ⟨sid, .authReq m⟩ true :: c.trace ∧
    m.usernameLen.toNat = u.text.length ∧ m.username.first m.usernameLen.toNat = u.text ∧
    m.passwordHash = env.ssl.sha256 p.text ∧
    ∀ users r, r.username.bytes = u.text → r.password.bytes = p.text →
      (sqmpAddUser env.ssl.sha256 users r).2 = .added →
        (sqmpAddUser env.ssl.sha256 users r).1 =
          some (users.getD [] ++ accountLine u.text m.passwordHash)

/-- `sqmp_login` returns -1 and has sent nothing. -/
def Refuses (env : ClientEnv) (c : Client) (stdin : Bytes) : Prop :=
  (∃ e, (c.sqmpLogin env stdin).2 = .error e) ∧ (c.sqmpLogin env stdin).1.trace = c.trace

/-- The login sends what was typed, and refuses a username that is too long. -/
def LoginAsTyped (env : ClientEnv) (c : Client) (u p : TypedLine) (rest : Bytes) : Prop :=
  if u.text.length ≤ 32 then SendsTyped env c u p (typedInput u p rest)
  else Refuses env c (typedInput u p rest)

/-! ## 1. Lines -/

namespace LoginInputLemmas

variable {body rest : Bytes} {n : Nat}

/-- A line that fits is taken with its newline. -/
theorem takeLine_line (hbody : newline ∉ body) (hn : body.length < n) :
    takeLine n (body ++ newline :: rest) = (body ++ [newline], rest) := by
  induction body generalizing n with
  | nil =>
    obtain ⟨n, rfl⟩ := Nat.exists_eq_add_of_lt hn
    rw [List.nil_append, takeLine]
    rfl
  | cons b body ih =>
    obtain ⟨hb, htl⟩ := not_or.mp (mt List.mem_cons.mpr hbody)
    rw [List.length_cons] at hn
    obtain ⟨n, rfl⟩ : ∃ m, n = m + 1 := ⟨n - 1, by omega⟩
    rw [List.cons_append, takeLine, if_neg (by simpa using Ne.symm hb), ih htl (by omega)]
    rfl

/-- Of a longer line the first `n` bytes are taken. -/
theorem takeLine_long (hbody : newline ∉ body) (hn : n ≤ body.length) :
    takeLine n (body ++ newline :: rest) = (body.take n, body.drop n ++ newline :: rest) := by
  induction body generalizing n with
  | nil =>
    rw [List.length_nil, Nat.le_zero] at hn
    rw [hn]
    rfl
  | cons b body ih =>
    obtain ⟨hb, htl⟩ := not_or.mp (mt List.mem_cons.mpr hbody)
    cases n with
    | zero => rfl
    | succ n =>
      rw [List.cons_append, takeLine, if_neg (by simpa using Ne.symm hb),
        ih htl (Nat.le_of_succ_le_succ hn)]
      rfl

theorem fgets_append (size : Nat) (body rest : Bytes) :
    fgets size (body ++ newline :: rest) =
      some (takeLine (size - 1) (body ++ newline :: rest)) := by
  rw [fgets, if_neg (by simp)]

/-- The newline at the end of a line is not kept. -/
theorem inputString_line (hnul : 0 ∉ body) : inputString (body ++ [newline]) = body := by
  have hplain : 0 ∉ body ++ [newline] := by
    rw [List.mem_append, List.mem_singleton, not_or]
    exact ⟨hnul, by decide⟩
  rw [inputString, cString_eq_self.mpr hplain]
  simp

theorem inputString_self (hbody : newline ∉ body) (hnul : 0 ∉ body) : inputString body = body := by
  have hlast : body.getLast? ≠ some newline := fun h => hbody (List.mem_of_getLast? h)
  rw [inputString, cString_eq_self.mpr hnul]
  exact if_neg hlast

end LoginInputLemmas
open LoginInputLemmas

/-! ## 2. The login -/

namespace LoginInputLemmas

variable {env : ClientEnv} {c : Client}

/-- What `sqmp_login` does with a first line of an accepted length and what it leaves. -/
theorem sqmpLogin_sends (henv : env.LoginSucceeds) {stdin line stdin' line' stdin'' : Bytes}
    (h : fgets 33 stdin = some (line, stdin')) (h' : fgets 256 stdin' = some (line', stdin''))
    (hpos : 1 ≤ (inputString line).length) (hle : (inputString line).length ≤ 32) :
    ∃ m, (c.sqmpLogin env stdin).2 = .ok () ∧ (c.sqmpLogin env stdin).1.trace =
        .sent ⟨c.session.sessionId, .authReq m⟩ true :: c.trace ∧
      m.usernameLen.toNat = (inputString line).length ∧
      m.username.first m.usernameLen.toNat = inputString line ∧
      m.passwordHash = env.ssl.sha256 (inputString line') := by
  obtain ⟨privkey, hkey⟩ := Option.isSome_iff_exists.mp (henv.keygen c.trace.length)
  have hlogin : c.sqmpLogin env stdin =
      c.sqmpLoginAs env (inputString line) (env.ssl.sha256 (inputString line')) privkey := by
    rw [Client.sqmpLogin, h]
    dsimp only
    rw [if_neg (by omega), h']
    dsimp only
    rw [hkey]
  rw [hlogin, Client.sqmpLoginAs]
  dsimp only [Client.modify_trace]
  rw [henv.streamSend, if_pos rfl]
  refine ⟨⟨UInt8.ofNat (inputString line).length, (Buf.zero 32).store (inputString line),
    env.ssl.sha256 (inputString line'), 32, (env.ssl.publicKey privkey).bytes⟩, rfl, ?_,
    toNat_length hle, first_store_name hle, rfl⟩
  rw [Client.sqmpStreamSend, Client.log_trace, Client.modify_trace, Client.modify_trace,
    henv.streamSend]
  rfl

/-- What a successful run of `sqmp-add-user` leaves in the users file. -/
theorem sqmpAddUser_added {sha256 : Bytes → Buf 32} {users : Option Bytes} {r : Invocation}
    (h : (sqmpAddUser sha256 users r).2 = .added) : (sqmpAddUser sha256 users r).1 =
      some (users.getD [] ++ accountLine r.username.bytes (sha256 r.password.bytes)) := by
  unfold sqmpAddUser at h ⊢
  split_ifs at h ⊢
  rfl

theorem sends_typed {u p : TypedLine} {stdin : Bytes} {sid : UInt32} {m : MsgAuthReq}
    (hok : (c.sqmpLogin env stdin).2 = .ok ())
    (htr : (c.sqmpLogin env stdin).1.trace = .sent ⟨sid, .authReq m⟩ true :: c.trace)
    (hlen : m.usernameLen.toNat = u.text.length)
    (hname : m.username.first m.usernameLen.toNat = u.text)
    (hhash : m.passwordHash = env.ssl.sha256 p.text) : SendsTyped env c u p stdin := by
  refine ⟨sid, m, hok, htr, hlen, hname, hhash, fun users r hu hp hadded => ?_⟩
  rw [sqmpAddUser_added hadded, hu, hp, hhash]

variable {u p : TypedLine} {rest : Bytes}

/-- A username that leaves room for its newline: both lines are read whole. -/
theorem short_sends (henv : env.LoginSucceeds) (hu : 1 ≤ u.text.length) (hlt : u.text.length < 32)
    (hp : p.text.length ≤ 254) : SendsTyped env c u p (typedInput u p rest) := by
  have hfirst : fgets 33 (typedInput u p rest) =
      some (u.text ++ [newline], p.text ++ newline :: rest) := by
    rw [typedInput, fgets_append]
    exact congrArg some (takeLine_line u.noNewline hlt)
  have hsecond : fgets 256 (p.text ++ newline :: rest) = some (p.text ++ [newline], rest) := by
    rw [fgets_append]
    exact congrArg some (takeLine_line p.noNewline (by omega))
  have hlen : (inputString (u.text ++ [newline])).length = u.text.length := by
    rw [inputString_line u.nulFree]
  obtain ⟨m, hok, htr, hml, hmu, hmh⟩ :=
    sqmpLogin_sends (c := c) henv hfirst hsecond (by omega) (by omega)
  rw [inputString_line u.nulFree] at hml hmu
  rw [inputString_line p.nulFree] at hmh
  exact sends_typed hok htr hml hmu hmh

/-- A username of 32 bytes: its newline is the password. -/
theorem full_sends_iff (henv : env.LoginSucceeds) (heq : u.text.length = 32) :
    SendsTyped env c u p (typedInput u p rest) ↔ env.ssl.sha256 p.text = env.ssl.sha256 [] := by
  have hfirst : fgets 33 (typedInput u p rest) =
      some (u.text, [] ++ newline :: (p.text ++ newline :: rest)) := by
    have hline : takeLine 32 (u.text ++ newline :: (p.text ++ newline :: rest)) = _ :=
      takeLine_long u.noNewline (Nat.le_of_eq heq.symm)
    rw [List.take_of_length_le (Nat.le_of_eq heq),
      List.drop_eq_nil_of_le (Nat.le_of_eq heq)] at hline
    rw [typedInput, fgets_append]
    exact congrArg some hline
  have hsecond : fgets 256 ([] ++ newline :: (p.text ++ newline :: rest)) =
      some ([newline], p.text ++ newline :: rest) := by
    rw [fgets_append]
    exact congrArg some (takeLine_line List.not_mem_nil (by decide))
  have hself : inputString u.text = u.text := inputString_self u.noNewline u.nulFree
  have hempty : inputString [newline] = [] := by decide
  obtain ⟨m, hok, htr, hml, hmu, hmh⟩ := sqmpLogin_sends (c := c) henv hfirst hsecond
    (by rw [hself]; omega) (by rw [hself]; omega)
  rw [hself] at hml hmu
  rw [hempty] at hmh
  constructor
  · rintro ⟨sid, m', _, htr', _, _, hmh', _⟩
    cases htr.symm.trans htr'
    exact hmh'.symm.trans hmh
  · exact fun hsha => sends_typed hok htr hml hmu (hmh.trans hsha.symm)

/-- A longer username: its rest is the password. -/
theorem long_not_refused (henv : env.LoginSucceeds) (hgt : 32 < u.text.length) :
    ¬ Refuses env c (typedInput u p rest) := by
  have hfirst : fgets 33 (typedInput u p rest) =
      some (u.text.take 32, u.text.drop 32 ++ newline :: (p.text ++ newline :: rest)) := by
    rw [typedInput, fgets_append]
    exact congrArg some (takeLine_long u.noNewline (Nat.le_of_lt hgt))
  have hsecond := fgets_append 256 (u.text.drop 32) (p.text ++ newline :: rest)
  have hself : inputString (u.text.take 32) = u.text.take 32 :=
    inputString_self (fun h => u.noNewline (List.mem_of_mem_take h))
      (fun h => u.nulFree (List.mem_of_mem_take h))
  have hlen : (u.text.take 32).length = 32 := by
    rw [List.length_take]
    omega
  obtain ⟨m, hok, _⟩ := sqmpLogin_sends (c := c) henv hfirst hsecond (by rw [hself]; omega)
    (by rw [hself]; omega)
  rintro ⟨⟨e, he⟩, _⟩
  cases hok.symm.trans he

end LoginInputLemmas

/-- A login sends the typed username with the hash of the typed password, and refuses a username
of more than 32 bytes, exactly if the username is shorter than 32 bytes, or has 32 and the
password is hashed like the empty one. -/
theorem login_as_typed_iff (env : ClientEnv) (henv : env.LoginSucceeds) (c : Client)
    (u p : TypedLine) (hu : 1 ≤ u.text.length) (hp : p.text.length ≤ 254) (rest : Bytes) :
    LoginAsTyped env c u p rest ↔ u.text.length < 32 ∨
      u.text.length = 32 ∧ env.ssl.sha256 p.text = env.ssl.sha256 [] := by
  unfold LoginAsTyped
  rcases Nat.lt_trichotomy u.text.length 32 with hlt | heq | hgt
  · rw [if_pos (Nat.le_of_lt hlt)]
    exact iff_of_true (short_sends henv hu hlt hp) (.inl hlt)
  · rw [if_pos (Nat.le_of_eq heq), full_sends_iff henv heq]
    exact ⟨fun h => .inr ⟨heq, h⟩, fun h => (h.resolve_left (by omega)).2⟩
  · rw [if_neg (Nat.not_le.mpr hgt)]
    exact iff_of_false (long_not_refused henv hgt) (by omega)

/-! ## 3. Concrete logins -/

/-- SHA-256 of the empty string. -/
def emptyHash : Buf 32 :=
  ⟨[227, 176, 196, 66, 152, 252, 28, 20, 154, 251, 244, 200, 153, 111, 185, 36, 39, 174, 65, 228,
    100, 155, 147, 76, 164, 149, 153, 27, 120, 82, 184, 85], rfl⟩

/-- The hashes of the empty string and of the passwords `a` and `x`. -/
def loginSSL : OpenSSL :=
  { testSSL (testPrivkey 16) with
    sha256 := fun bs => if bs = [] then emptyHash else (testSSL (testPrivkey 16)).sha256 bs }

theorem loginSSL_succeeds : (ClientEnv.fair loginSSL).LoginSucceeds := ⟨fun _ => rfl, fun _ => rfl⟩

/-- `n` times the letter `a`. -/
def letters (n : Nat) : TypedLine where
  text := List.replicate n 97
  noNewline := fun h => absurd (List.eq_of_mem_replicate h) (by decide)
  nulFree := fun h => absurd (List.eq_of_mem_replicate h) (by decide)

/-- The password `x`. -/
def xLine : TypedLine := ⟨[120], by decide, by decide⟩

theorem login_shortName : LoginAsTyped (.fair loginSSL) .init (letters 31) xLine [] :=
  (login_as_typed_iff (.fair loginSSL) loginSSL_succeeds .init (letters 31) xLine (by decide)
    (by decide) []).mpr (.inl (by decide))

theorem long_name_sent : ¬ LoginAsTyped (.fair loginSSL) .init (letters 32) xLine [] ∧
    ¬ LoginAsTyped (.fair loginSSL) .init (letters 33) xLine [] := by
  have hhash : loginSSL.sha256 xLine.text ≠ loginSSL.sha256 [] := by decide
  exact ⟨fun h => hhash ((full_sends_iff loginSSL_succeeds (by decide)).mp h),
    long_not_refused loginSSL_succeeds (by decide)⟩

end SquimpChat
