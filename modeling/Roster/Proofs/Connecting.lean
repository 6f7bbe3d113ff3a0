import Roster.Directory.Connection
import Roster.Proofs.Retrying

/-!
# Connecting to a directory

Connecting makes attempts under a policy without backoff. An attempt is a sequence of steps, cut by
the first one that fails (`Directory.attemptCalls`, `Directory.cut?`); what cuts it gives its
connection up. A failure to give the connection up takes the place of the failure that cut the
attempt, and is tried again like it.

All waits are as long as the one asked for, where the clock can sleep it. A wait that is too long for
the clock is no wait: the first attempt that fails is the last one, and connecting ends in the
failure of the clock if a retry was left.

* `Directory.openAndBind_gives`: one attempt.
* `Directory.Attempts.cut`, `Directory.Attempts.last`: which attempts are cut, and the last one.
* `Directory.connect_tries`: connecting goes as its attempts are tried;
  `Directory.connect_refused`: a wait that cannot be slept ends it.
* `Directory.closes_gives`: closing, any number of times.
* `Directory.connect_attempts`: the protocol as a whole.
-/

namespace Roster

/-! ## Attempts -/

/-- The failure that a step ends an attempt with when it is broken off. -/
def LinkOutcome.broken? : LinkOutcome → Option Failure
  | .broken reason => some (.directory reason)
  | _ => none

/-- The failure that a step ends an attempt with unless the other side agrees to it. -/
def LinkOutcome.denied? (what : String) (result : DirectoryResult) : LinkOutcome → Option Failure
  | .done => none
  | .refused => some (.bindFailed what result)
  | .broken reason => some (.directory reason)

/-- What happens to the connection of an attempt. -/
def Script.link (script : Script) (k : Nat) : Link := script.attempts[k - 1]?.getD {}

/-- The call creates a connection. -/
def Call.isConnection : Call → Bool
  | .connection .. => true
  | _ => false

/-- The call gives a connection up. -/
def Call.isUnbind : Call → Bool
  | .unbind => true
  | _ => false

namespace Directory

variable {d : Directory} {l : Link}

/-- Whether the channel of a new connection is secured before the connection is bound. -/
def upgrades (d : Directory) : Bool := d.settings.startTls.truthy && !d.settings.useSsl.truthy

/-- The steps of an attempt in order, each with the failure that it ends the attempt with, if it
does. -/
def steps (d : Directory) (l : Link) : List (Call × Option Failure) :=
  (.openConnection, l.opening.broken?) ::
    ((if d.upgrades then [(.startTls, l.securing.denied? "Failed to start TLS" l.result)] else [])
      ++ [(.bind, l.binding.denied? "Bind failed" l.result)])

/-- The calls of the steps up to the first one that ends the attempt. -/
def made : List (Call × Option Failure) → List Call
  | [] => []
  | (c, none) :: rest => c :: made rest
  | (c, some _) :: _ => [c]

/-- What cuts an attempt: the failure of the first step that ends it, or in its place that of
unbinding. -/
def cut? (d : Directory) (l : Link) : Option Failure :=
  ((d.steps l).findSome? (·.2)).map fun f => l.unbinding.broken?.getD f

/-- The calls of an attempt: it creates a connection, takes the steps, and unbinds if it is cut. -/
def attemptCalls (d : Directory) (l : Link) : List Call :=
  .connection d.settings.bindName d.settings.bindPassword d.settings.receiveTimeout ::
    (made (d.steps l) ++ if (d.cut? l).isSome then [.unbind] else [])

theorem bindSteps_gives (d : Directory) (l : Link) :
    (d.bindSteps l).Gives (made (d.steps l))
      (((d.steps l).findSome? (·.2)).elim (.ok ()) .error) := by
  obtain ⟨opening, securing, binding, unbinding, result⟩ := l
  unfold bindSteps steps upgrades
  by_cases hu : (d.settings.startTls.truthy && !d.settings.useSsl.truthy) = true
  · simp only [hu, if_true]
    cases opening <;> cases securing <;> cases binding <;> exact ⟨rfl, rfl⟩
  · simp only [hu, if_false, Bool.false_eq_true]
    cases opening <;> cases binding <;> exact ⟨rfl, rfl⟩

/-- Whatever ends an attempt is a failure of the directory. -/
theorem isA_of_findSome? {f : Failure} (h : (d.steps l).findSome? (·.2) = some f) :
    f.isA .directory = true := by
  have hbroken {o : LinkOutcome} (hf : o.broken? = some f) : f.isA .directory = true := by
    cases o <;> cases hf
    rfl
  have hdenied {what : String} {o : LinkOutcome} (hf : o.denied? what l.result = some f) :
      f.isA .directory = true := by
    cases o <;> cases hf <;> rfl
  obtain ⟨p, hp, hf⟩ := List.exists_of_findSome?_eq_some h
  unfold steps at hp
  rw [List.mem_cons, List.mem_append, List.mem_singleton] at hp
  rcases hp with rfl | hp | rfl
  · exact hbroken hf
  · split at hp
    · obtain rfl := List.mem_singleton.1 hp
      exact hdenied hf
    · cases hp
  · exact hdenied hf

/-- An attempt ends with the failure that cuts it, if there is one. -/
theorem openAndBind_gives (d : Directory) (l : Link) :
    (d.openAndBind l).Gives (d.attemptCalls l) ((d.cut? l).elim (.ok l) .error) := by
  have hsteps := bindSteps_gives d l
  unfold openAndBind attemptCalls cut?
  refine .bind (.call _) ?_
  cases hcut : (d.steps l).findSome? (·.2) with
  | none =>
    rw [hcut] at hsteps
    show Reply.Gives _ (made (d.steps l) ++ []) _
    rw [List.append_nil]
    exact .bind_silent (.tryCatch (hsteps.bind_silent ⟨rfl, rfl⟩)) ⟨rfl, rfl⟩
  | some f =>
    rw [hcut] at hsteps
    refine .bind_error (.tryCatch_error hsteps.bind_error ?_)
    dsimp only
    rw [if_pos (isA_of_findSome? hcut)]
    cases l.unbinding <;> exact ⟨rfl, rfl⟩

theorem isA_of_cut? {f : Failure} (h : d.cut? l = some f) : f.isA .directory = true := by
  obtain ⟨g, hg, rfl⟩ := Option.map_eq_some_iff.1 h
  cases hu : l.unbinding with
  | broken reason => rfl
  | _ => exact isA_of_findSome? hg

/-- The calls that an attempt gets to: it stops after opening or after securing the channel, or goes
on to binding, over a channel that is secured where that is asked for. -/
theorem made_steps (d : Directory) (l : Link) :
    made (d.steps l) = [.openConnection] ∨
    d.upgrades = true ∧ made (d.steps l) = [.openConnection, .startTls] ∨
    d.upgrades = true ∧ l.securing = .done ∧
      made (d.steps l) = [.openConnection, .startTls, .bind] ∨
    d.upgrades = false ∧ made (d.steps l) = [.openConnection, .bind] := by
  have hbind : made [(.bind, l.binding.denied? "Bind failed" l.result)] = [.bind] := by
    cases l.binding <;> rfl
  unfold steps
  cases hopen : l.opening.broken? with
  | some f => exact .inl rfl
  | none =>
    cases hu : d.upgrades with
    | false =>
      refine .inr (.inr (.inr ⟨rfl, ?_⟩))
      rw [if_neg Bool.false_ne_true, List.nil_append, made, hbind]
    | true =>
      rw [if_pos rfl, List.singleton_append, made]
      cases hsecure : l.securing with
      | done => exact .inr (.inr (.inl ⟨rfl, rfl, by rw [LinkOutcome.denied?, made, hbind]⟩))
      | refused => exact .inr (.inl ⟨rfl, rfl⟩)
      | broken reason => exact .inr (.inl ⟨rfl, rfl⟩)

/-- What holds of the calls of an attempt: one connection is created, it is unbound once if the
attempt is cut and left open otherwise, and it is bound only over a channel that was secured, where
that is asked for. -/
structure Orderly (d : Directory) (l : Link) : Prop where
  connects : (d.attemptCalls l).countP Call.isConnection = 1
  unbinds : (d.attemptCalls l).countP Call.isUnbind = if (d.cut? l).isSome then 1 else 0
  secures : .bind ∈ d.attemptCalls l → d.upgrades = true →
    .startTls ∈ d.attemptCalls l ∧ l.securing = .done
  waits : ∀ seconds, .sleep seconds ∉ d.attemptCalls l

theorem orderly (d : Directory) (l : Link) : d.Orderly l := by
  rcases made_steps d l with h | ⟨hu, h⟩ | ⟨hu, hs, h⟩ | ⟨hu, h⟩
  all_goals
    cases hcut : (d.cut? l).isSome <;> constructor <;>
      simp [attemptCalls, List.countP_cons, Call.isConnection, Call.isUnbind, *]

/-! ## Connecting -/

/-- How a failure of the attempts is told. -/
def told : Failure → Failure
  | .retriesExhausted k f => .connectFailed k f.text
  | f => f

/-- How connecting ends for what became of the attempts. -/
def concluded (d : Directory) : Except Failure Link → Except Failure Directory
  | .ok l => .ok { d with link := some l }
  | .error f => .error (told f)

/-- What comes before the first attempt: the channel is prepared and the server is named. -/
def preparations (d : Directory) (script : Script) (tls : Bool) : List Call :=
  (d.secure script).journal.calls ++
    [.server d.settings.url d.settings.useSsl d.settings.connectTimeout tls]

/-- How the attempts go under a policy without backoff, whose waits are numbers: the waits between
them and what becomes of them. -/
def Attempts (d : Directory) (script : Script) (n : Int) (wait : Number) (waits : List Value)
    (r : Except Failure Link) : Prop :=
  RetryPolicy.Tries RetryPolicy.pace (.number (.real 1))
    (fun f => [FailureKind.directory].any f.isA)
    (fun k => (d.openAndBind (script.link k)).outcome) n.toNat (.ok (.number wait)) 1 waits r

section Attempts

variable {sleep : Sleep} {script : Script} {p : RetryPolicy Value} {n : Int} {wait : Number}
  {tls : Bool} {waits : List Value} {cs : List Call} {r : Except Failure Link}

/-- Every attempt that a wait follows is cut. -/
theorem Attempts.cut (h : d.Attempts script n wait waits r) {i : Nat} (hi : 1 ≤ i)
    (hlast : i ≤ waits.length) : (d.cut? (script.link i)).isSome = true := by
  obtain ⟨f, hf, -⟩ := h.failed (i := i - 1) (by omega)
  rw [show 1 + (i - 1) = i by omega, (openAndBind_gives d (script.link i)).outcome] at hf
  cases hcut : d.cut? (script.link i) with
  | none => rw [hcut] at hf; cases hf
  | some f => rfl

/-- The last attempt goes through, or it is cut and the retries are used up. -/
theorem Attempts.last (h : d.Attempts script n wait waits r) (hwait : wait.IsExact) :
    (d.cut? (script.link (waits.length + 1)) = none ∧
      r = .ok (script.link (waits.length + 1))) ∨
    ∃ f, d.cut? (script.link (waits.length + 1)) = some f ∧ waits.length = n.toNat ∧
      r = .error (.retriesExhausted (waits.length + 1) f) := by
  have hend := h.ending_even hwait
  rw [Nat.add_comm 1, (openAndBind_gives d _).outcome] at hend
  cases hcut : d.cut? (script.link (waits.length + 1)) with
  | none =>
    rw [hcut] at hend
    rcases hend with ⟨l, hl, rfl⟩ | ⟨f, hf, -⟩
    · exact .inl ⟨rfl, hl.symm⟩
    · cases hf
  | some f =>
    rw [hcut] at hend
    rcases hend with ⟨l, hl, -⟩ | ⟨g, hg, ⟨hn, -⟩ | ⟨-, hlength, rfl⟩⟩
    · cases hl
    · obtain rfl := Except.error.inj hg
      simp [isA_of_cut? hcut] at hn
    · obtain rfl := Except.error.inj hg
      exact .inr ⟨f, rfl, hlength, rfl⟩

/-- An attempt that goes through is the only one. -/
theorem Attempts.of_not_cut (hcut : d.cut? (script.link 1) = none) :
    d.Attempts script n wait [] (.ok (script.link 1)) :=
  .settled (by rw [(openAndBind_gives d _).outcome, hcut]; rfl)

/-- So is one that no retry is left after. -/
theorem Attempts.of_cut {f : Failure} (hcut : d.cut? (script.link 1) = some f) (hn : n ≤ 0) :
    d.Attempts script n wait [] (.error (.retriesExhausted 1 f)) := by
  unfold Attempts
  rw [Int.toNat_of_nonpos hn]
  refine .exhausted ?_ (by simp [isA_of_cut? hcut])
  rw [(openAndBind_gives d _).outcome, hcut]
  rfl

/-- Once the channel and the server are there, connecting goes as its attempts go. -/
theorem connect_gives {x : Except Failure Link} (hsecure : (d.secure script).outcome = .ok tls)
    (hserver : script.serverError = none)
    (hrun : (p.runWith sleep s!"LDAP bind to {d.settings.url}" [.directory]
      fun k => d.openAndBind (script.link k)).Gives cs x) :
    (d.connect sleep script (.ok p)).Gives (d.preparations script tls ++ cs) (d.concluded x) := by
  have hsecured : (d.secure script).Gives (d.secure script).journal.calls (.ok tls) :=
    ⟨rfl, hsecure⟩
  unfold connect preparations
  rw [List.append_assoc]
  refine hsecured.bind (.bind (.call _) ?_)
  rw [hserver]
  dsimp only
  cases x with
  | ok l => exact .bind_silent (.tryCatch hrun) (.bind (.log ..) (.pure _))
  | error f =>
    refine .bind_error (.tryCatch_silent hrun ?_)
    cases f <;> exact .throw _

/-- Connecting under a policy without backoff goes as the attempts are tried, if the waits are
numbers that can be slept. -/
theorem connect_tries (hsecure : (d.secure script).outcome = .ok tls)
    (hserver : script.serverError = none) (h : d.Attempts script n wait waits r)
    (hwaits : ∀ v ∈ waits, sleep v = .ok () ∧ ∃ w, v = .number w) :
    (d.connect sleep script (.ok ⟨n, .number wait, .number (.real 1)⟩)).Gives
      (d.preparations script tls ++
        RetryPolicy.trace (fun i => d.attemptCalls (script.link i)) waits 1)
      (d.concluded r) := by
  have hcalls (k : Nat) := (openAndBind_gives d (script.link k)).calls
  have hrun := RetryPolicy.run_gives sleep s!"LDAP bind to {d.settings.url}" [.directory]
    (fun k => d.openAndBind (script.link k)) (p := ⟨n, .number wait, .number (.real 1)⟩) h
    (fun k c hc xs h => by
      rw [hcalls, h] at hc
      exact (orderly d (script.link k)).waits _ hc)
    (fun v hv => (hwaits v hv).1)
    (fun v hv => by
      obtain ⟨-, w, rfl⟩ := hwaits v hv
      rfl)
  simp only [hcalls] at hrun
  exact connect_gives hsecure hserver hrun

/-- One attempt goes without waits. -/
theorem connect_once (hsecure : (d.secure script).outcome = .ok tls)
    (hserver : script.serverError = none) (h : d.Attempts script n wait [] r) :
    (d.connect sleep script (.ok ⟨n, .number wait, .number (.real 1)⟩)).Gives
      (d.preparations script tls ++ d.attemptCalls (script.link 1)) (d.concluded r) :=
  connect_tries hsecure hserver h (by simp)

/-- If the first attempt is cut and the wait after it cannot be slept, connecting ends in the failure
to sleep it. -/
theorem connect_refused {f e : Failure} (hsecure : (d.secure script).outcome = .ok tls)
    (hserver : script.serverError = none) (hcut : d.cut? (script.link 1) = some f) (hn : 0 < n)
    (hsleep : sleep (.number wait) = .error e) :
    (d.connect sleep script (.ok ⟨n, .number wait, .number (.real 1)⟩)).Gives
      (d.preparations script tls ++ (d.attemptCalls (script.link 1) ++ [.sleep (.number wait)]))
      (.error (told e)) := by
  have hattempt := openAndBind_gives d (script.link 1)
  rw [hcut] at hattempt
  have hcall : (RetryPolicy.call RetryPolicy.pace ⟨n, .number wait, .number (.real 1)⟩
      (RetryPolicy.operation sleep s!"LDAP bind to {d.settings.url}" [.directory]
        fun k => d.openAndBind (script.link k))).Gives
        ((d.openAndBind (script.link 1)).journal.calls ++ [.sleep (.number wait)]) (.error e) := by
    unfold RetryPolicy.call RetryPolicy.attempts
    rw [Nat.add_sub_cancel, show n.toNat = (n.toNat - 1) + 1 by omega]
    refine RetryPolicy.callFrom_refused sleep _ _ _ hattempt.outcome ?_ rfl hsleep
    simpa [RetryPolicy.operation] using isA_of_cut? hcut
  rw [hattempt.calls] at hcall
  refine connect_gives hsecure hserver (x := .error e)
    (RetryPolicy.runWith_gives sleep _ _ _ hcall fun c hc xs h => ?_)
  rw [h, List.mem_append, List.mem_singleton] at hc
  rcases hc with hc | hc
  · exact (orderly d (script.link 1)).waits _ hc
  · cases hc

end Attempts

/-! ## Closing -/

/-- Closes the connection a number of times. -/
def closes : Nat → Directory → Reply Directory
  | 0, d => pure d
  | m + 1, d => d.close >>= closes m

theorem closes_gives_nil (h : d.link = none) (m : Nat) : (closes m d).Gives [] (.ok d) := by
  induction m with
  | zero => exact .pure d
  | succ m ih =>
    have hclose : d.close.Gives [] (.ok d) := by
      unfold close
      rw [h]
      exact .pure d
    exact hclose.bind ih

/-- However often a connection is closed, it is unbound once, whether or not unbinding fails. -/
theorem closes_gives (h : d.link = some l) (m : Nat) :
    (closes (m + 1) d).Gives [.unbind] (.ok { d with link := none }) := by
  have hclose : d.close.Gives [.unbind] (.ok { d with link := none }) := by
    obtain ⟨opening, securing, binding, unbinding, result⟩ := l
    unfold close
    rw [h]
    cases unbinding <;> exact ⟨rfl, rfl⟩
  exact hclose.bind_silent (closes_gives_nil rfl m)

/-! ## The protocol -/

/-- The attempt goes through, and its connection is kept until closing gives it up, once. -/
def Keeps (d : Directory) (l : Link) (x : Except Failure Directory) : Prop :=
  d.cut? l = none ∧ x = .ok { d with link := some l } ∧
    ∀ m, (closes (m + 1) { d with link := some l }).Gives [.unbind] (.ok d)

theorem keeps_of_not_cut (hfresh : d.link = none) (hcut : d.cut? l = none) :
    d.Keeps l (.ok { d with link := some l }) := by
  refine ⟨hcut, rfl, fun m => ?_⟩
  have hclosed : { d with link := none } = d := by rw [← hfresh]
  rw [← hclosed]
  exact closes_gives rfl m

/-- Connecting makes attempts until one of them goes through or they are used up, with waits between
them that are as long as the one asked for. If the last attempt goes through its connection is kept;
if not, then all attempts are used up and all connections were given up. But where the clock cannot
count the nanoseconds of the wait there is one attempt only, and if that is cut and retries are left,
connecting ends in the failure of the clock. -/
theorem connect_attempts (script : Script) (n : Int) (wait : Number) {tls : Bool}
    (hfresh : d.link = none) (hsecure : (d.secure script).outcome = .ok tls)
    (hserver : script.serverError = none) (hwait : 0 ≤ wait) (hproper : wait.Proper) :
    (∀ i, d.Orderly (script.link i)) ∧
    (Sleep.nanoseconds wait.toRat < Sleep.bound →
      ∃ (k : Nat) (waits : List Value) (x : Except Failure Directory),
        1 ≤ k ∧ k ≤ n.toNat + 1 ∧ waits.length + 1 = k ∧
        (∀ v ∈ waits, ∃ w, v = .number w ∧ w.toRat = wait.toRat) ∧
        (d.connect Sleep.timed script (.ok ⟨n, .number wait, .number (.real 1)⟩)).Gives
          (d.preparations script tls ++
            RetryPolicy.trace (fun i => d.attemptCalls (script.link i)) waits 1) x ∧
        (∀ i, 1 ≤ i → i < k → (d.cut? (script.link i)).isSome = true) ∧
        (d.Keeps (script.link k) x ∨ ∃ f, d.cut? (script.link k) = some f ∧
          k = n.toNat + 1 ∧ x = .error (.connectFailed k f.text))) ∧
    (Sleep.bound ≤ Sleep.nanoseconds wait.toRat →
      ∃ (pauses : List Call) (x : Except Failure Directory),
        (d.connect Sleep.timed script (.ok ⟨n, .number wait, .number (.real 1)⟩)).Gives
          (d.preparations script tls ++ (d.attemptCalls (script.link 1) ++ pauses)) x ∧
        (pauses = [] ∧ d.Keeps (script.link 1) x ∨ ∃ f, d.cut? (script.link 1) = some f ∧
          (n ≤ 0 ∧ pauses = [] ∧ x = .error (.connectFailed 1 f.text) ∨
            0 < n ∧ pauses = [.sleep (.number wait)] ∧ x = .error .waitTooLong))) := by
  refine ⟨fun i => orderly d _, fun hshort => ?_, fun hlong => ?_⟩
  · have hexact : wait.IsExact := Sleep.isExact_of_short hwait hproper hshort
    obtain ⟨waits, r, htries⟩ : ∃ waits r, d.Attempts script n wait waits r :=
      RetryPolicy.exists_tries ..
    have heven (v : Value) (hv : v ∈ waits) : ∃ w, v = .number w ∧ w.toRat = wait.toRat :=
      RetryPolicy.Tries.even htries hexact hv
    refine ⟨waits.length + 1, waits, d.concluded r, by omega, Nat.succ_le_succ htries.length_le,
      rfl, heven, connect_tries hsecure hserver htries fun v hv => ?_,
      fun i hi hk => htries.cut hi (Nat.le_of_lt_succ hk), ?_⟩
    · obtain ⟨w, rfl, hw⟩ := heven v hv
      exact ⟨(Sleep.timed_congr hw).trans (Sleep.timed_eq_ok hwait hshort), w, rfl⟩
    · rcases htries.last hexact with ⟨hcut, rfl⟩ | ⟨f, hcut, hlength, rfl⟩
      · exact .inl (keeps_of_not_cut hfresh hcut)
      · exact .inr ⟨f, hcut, congrArg (· + 1) hlength, rfl⟩
  · have hrefused := Sleep.timed_eq_error hlong
    cases hcut : d.cut? (script.link 1) with
    | none =>
      refine ⟨[], _, ?_, .inl ⟨rfl, keeps_of_not_cut hfresh hcut⟩⟩
      rw [List.append_nil]
      exact connect_once hsecure hserver (.of_not_cut hcut)
    | some f =>
      by_cases hn : 0 < n
      · exact ⟨_, _, connect_refused hsecure hserver hcut hn hrefused,
          .inr ⟨f, rfl, .inr ⟨hn, rfl, rfl⟩⟩⟩
      · refine ⟨[], _, ?_, .inr ⟨f, rfl, .inl ⟨not_lt.1 hn, rfl, rfl⟩⟩⟩
        rw [List.append_nil]
        exact connect_once hsecure hserver (.of_cut hcut (not_lt.1 hn))

/-- A directory whose connections are secured before they are bound. -/
def office : Directory where
  name := .text "corp"
  content := {}
  settings := {
    url := "ldap://corp", bindName := .text "cn=reader", bindPassword := .text "secret"
    userBase := .null, groupBase := .null, userFilter := .null, groupFilter := .null
    userKey := .text "uid", groupKey := .text "cn", memberOfKey := .text "memberOf"
    attributes := .texts [], groupClasses := ["group"], direct := true, useSsl := .null
    startTls := .bool true, verifySsl := .bool true, authorityFile := .null
    certificateFile := .null, keyFile := .null, keystoreFile := .null, keystorePassword := .null
    connectTimeout := .null, receiveTimeout := .null, pageSize := .null }

/-- The first connection cannot be opened; the second is not secured, and cannot be given up; the
third is made. -/
def flaky : Script where
  attempts := [{ opening := .broken "unreachable" },
    { securing := .refused, unbinding := .broken "gone" }, {}]

/-- The third attempt goes through, and its connection is the one that is given up in the end. -/
theorem connect_attempts_flaky :
    office.link = none ∧ (office.secure flaky).outcome = .ok true ∧ flaky.serverError = none ∧
    0 ≤ Number.real 5 ∧ (Number.real 5).Proper ∧
    ∃ waits : List Value, waits.length = 2 ∧ (∀ v ∈ waits, ∃ w, v = .number w ∧ w.toRat = 5) ∧
      (office.connect Sleep.timed flaky (.ok ⟨3, .number (.real 5), .number (.real 1)⟩)).Gives
        (office.preparations flaky true ++
          RetryPolicy.trace (fun i => office.attemptCalls (flaky.link i)) waits 1)
        (.ok { office with link := some {} }) ∧
      (closes 2 { office with link := some {} }).Gives [.unbind] (.ok office) := by
  have hwait : 0 ≤ Number.real 5 := by decide
  have hproper : (Number.real 5).Proper := by
    rintro _ ⟨rfl⟩
    exact ⟨5, 0, by norm_num, by norm_num, by norm_num⟩
  have hshort : Sleep.nanoseconds (Number.real 5).toRat < Sleep.bound := by
    norm_num [Number.toRat, Sleep.nanoseconds, Sleep.bound]
  refine ⟨rfl, rfl, rfl, hwait, hproper, ?_⟩
  obtain ⟨k, waits, x, hone, hk, hlength, hwaits, hgives, hcut, hend⟩ :=
    (connect_attempts (d := office) flaky 3 (.real 5) rfl rfl rfl hwait hproper).2.1 hshort
  have hle : k ≤ 3 := by
    by_contra hlt
    cases hcut 3 (by omega) (by omega)
  rcases hend with ⟨hgoes, rfl, hclosed⟩ | ⟨f, hf, hlast, -⟩
  · obtain rfl | rfl | rfl : k = 1 ∨ k = 2 ∨ k = 3 := by omega
    · cases hgoes
    · cases hgoes
    · exact ⟨waits, by omega, hwaits, hgives, hclosed 1⟩
  · have hlast : k = 4 := hlast
    omega

/-- Nothing can be opened. -/
def unreachable : Script where
  attempts := List.replicate 3 { opening := .broken "unreachable" }

/-- For a wait of more years than the clock can count there is one attempt instead of three, and
connecting fails on account of the wait. -/
theorem connect_wait_too_long :
    office.link = none ∧ (office.secure unreachable).outcome = .ok true ∧
    unreachable.serverError = none ∧ 0 ≤ Number.int (2 ^ 53 + 1) ∧
    (office.connect Sleep.timed unreachable
        (.ok ⟨2, .number (.int (2 ^ 53 + 1)), .number (.real 1)⟩)).Gives
      (office.preparations unreachable true ++
        (office.attemptCalls (unreachable.link 1) ++ [.sleep (.number (.int (2 ^ 53 + 1)))]))
      (.error .waitTooLong) := by
  have hlong : Sleep.bound ≤ Sleep.nanoseconds (Number.int (2 ^ 53 + 1)).toRat := by
    norm_num [Number.toRat, Sleep.nanoseconds, Sleep.bound]
  exact ⟨rfl, rfl, rfl, by decide,
    connect_refused rfl rfl rfl (by decide) (Sleep.timed_eq_error hlong)⟩

end Directory

end Roster
