/-
What the server knows once `CheckSendCompleteStatus` has returned.

# What the check counts

A token stands for one message taken from the response key, whichever it
was. The answers to the PSI-params and the OPRF request go through the
same key, and nobody takes their tokens before the check does, so the
check can be two packages ahead of the client: when it has counted to
the package count, all packages but two have been fetched
(`complete_fetched`).

# The run that stops short

The client fetches one package less than there are and rests; the server
then finds enough tokens (`stopsShort`). Such a run is there for every
number of packages but none at all, so the check means what it should
only when there is nothing to check.
-/
import Mathlib.Tactic.Ring
import PrimiHub.Pir.Keyword

namespace PrimiHub.Pir

open Lib

variable {n : Nat}

-- ============================================================ the tokens

/-- The tokens of the response key a handler has yet to push, or has
taken. -/
def Call.counted : Call → Nat
  | .taken .responseKey _ => 1
  | .counting .responseKey _ completeCount => completeCount
  | _ => 0

/-- The same of the call of a party. -/
def Party.counted (p : Party) : Nat :=
  match p.call with
  | none => 0
  | some call => call.counted

/-- The answers on the response key the party still has to send. -/
def Op.sendsAnswer : Op → Bool
  | .send .responseKey msg => !msg.isResult
  | _ => false

def Party.answersLeft (p : Party) : Nat := p.todo.countP Op.sendsAnswer

/-- How many of the messages are no result packages. -/
def answers (msgs : List Message) : Nat :=
  msgs.countP fun msg => !msg.isResult

theorem answers_append (xs ys : List Message) :
    answers (xs ++ ys) = answers xs + answers ys := List.countP_append

/-- Every message is an answer or a result package. -/
theorem length_eq_answers (msgs : List Message) :
    msgs.length = msgs.countP Message.isResult + answers msgs := by
  rw [answers, List.length_eq_countP_add_countP Message.isResult]
  simp

/-- The turn of a handler: a token more is a message more or a token
less elsewhere, and what leaves the queue has been forwarded. -/
theorem turn_backed {p p' : Proxy} {call call' : Call}
    (h : p.turn call = some (p', call')) :
    p'.completeQueue .responseKey + call'.counted + p.forwarded.length
        = p.completeQueue .responseKey + call.counted + p'.forwarded.length
      ∧ p'.forwarded ++ p'.recvQueue .responseKey
        = p.forwarded ++ p.recvQueue .responseKey
      ∧ p.forwarded.length ≤ p'.forwarded.length
      ∧ ∀ key expected completeCount,
          call' = .counting key expected completeCount →
          ∃ before, call = .counting key expected before := by
  cases call with
  | waiting key =>
      simp only [Proxy.turn] at h
      split at h
      · cases h
      · rename_i msg rest hqueue
        cases h
        cases key <;> simp [Call.counted, hqueue]
        omega
  | taken key msg =>
      cases h
      cases key <;> simp [Call.counted]
  | forwarded msg => cases h
  | counting key expected completeCount =>
      simp only [Proxy.turn] at h
      split_ifs at h with hwait
      cases h
      have hsome : p.completeQueue key ≠ 0 := fun hzero => hwait (Or.inr hzero)
      cases key <;> simp [Call.counted]
      omega

-- ========================================================= the invariant

/-- A measure of both parties together. -/
def Exchange.total (s : Exchange) (f : Party → Nat) : Nat :=
  f (s.party .server) + f (s.party .client)

theorem total_setParty (s : Exchange) (f : Party → Nat) (r : Role)
    (p : Party) :
    (s.setParty r p).total f + f (s.party r) = s.total f + f p := by
  cases r <;> simp [Exchange.total, Exchange.setParty] <;> omega

/-- The party checks for `n` messages on the response key, if at all. -/
structure Party.ChecksFor (n : Nat) (p : Party) : Prop where
  todo : ∀ key expected, Op.checkSendCompleteStatus key expected ∈ p.todo →
    key = .responseKey ∧ expected = n
  call : ∀ key expected completeCount,
    p.call = some (.counting key expected completeCount) →
    key = .responseKey ∧ expected = n

/-- What holds in every run: the tokens that are there or have been taken
are no more than the messages forwarded, and no more than two of these
are answers. -/
structure Backed (n : Nat) (s : Exchange) : Prop where
  tokens : s.proxy.completeQueue .responseKey + s.total Party.counted
      + (s.abandoned.map Call.counted).sum ≤ s.proxy.forwarded.length
  answers : answers (s.proxy.forwarded ++ s.proxy.recvQueue .responseKey)
      + s.total Party.answersLeft ≤ 2
  checks : ∀ r, (s.party r).ChecksFor n
  complete : s.checked = some .complete → n ≤ s.proxy.forwarded.length

/-- A step of a party keeps account if it does so locally. -/
theorem backed_setParty {s : Exchange} (hs : Backed n s) {r : Role}
    {p : Party} {proxy : Proxy} {abandoned : List Call}
    {checked : Option CheckReturn}
    (htokens : proxy.completeQueue .responseKey + p.counted
        + (abandoned.map Call.counted).sum + s.proxy.forwarded.length
      ≤ s.proxy.completeQueue .responseKey + (s.party r).counted
        + (s.abandoned.map Call.counted).sum + proxy.forwarded.length)
    (hanswers : Pir.answers (proxy.forwarded ++ proxy.recvQueue .responseKey)
        + p.answersLeft
      ≤ Pir.answers (s.proxy.forwarded ++ s.proxy.recvQueue .responseKey)
        + (s.party r).answersLeft)
    (hchecks : p.ChecksFor n)
    (hcomplete : checked = some .complete → n ≤ proxy.forwarded.length) :
    Backed n (Exchange.setParty ⟨proxy, s.party, abandoned, checked⟩ r p) := by
  have htotal := fun f =>
    total_setParty ⟨proxy, s.party, abandoned, checked⟩ f r p
  refine ⟨?_, ?_, ?_, hcomplete⟩
  · have hbefore := hs.tokens
    have hsum := htotal Party.counted
    change proxy.completeQueue .responseKey + _
      + (abandoned.map Call.counted).sum
      ≤ proxy.forwarded.length
    change _ + (s.party r).counted = s.total Party.counted + _ at hsum
    omega
  · have hbefore := hs.answers
    have hsum := htotal Party.answersLeft
    change Pir.answers (proxy.forwarded ++ proxy.recvQueue .responseKey) + _ ≤ 2
    change _ + (s.party r).answersLeft = s.total Party.answersLeft + _ at hsum
    omega
  · intro r'
    by_cases hr : r' = r
    · subst hr
      simpa [Exchange.setParty] using hchecks
    · simpa [Exchange.setParty, hr] using hs.checks r'

/-- What the push of a message on a key changes. -/
theorem answers_push (p : Proxy) (key : PirKey) (msg : Message) :
    answers ((p.push key msg).forwarded
        ++ (p.push key msg).recvQueue .responseKey)
      = answers (p.forwarded ++ p.recvQueue .responseKey)
        + if key = .responseKey ∧ msg.isResult = false then 1 else 0 := by
  by_cases hkey : key = .responseKey
  · subst hkey
    cases hmsg : msg.isResult <;>
      simp [Proxy.push, answers, hmsg, Nat.add_assoc]
  · simp [Proxy.push, hkey, Ne.symm hkey]

/-- The rest of a program checks for no more than the whole. -/
theorem checksFor_rest {op : Op} {rest : List Op} {call : Option Call}
    {retryTime retryTime' : Nat}
    (h : Party.ChecksFor n ⟨op :: rest, call, retryTime⟩) :
    Party.ChecksFor n ⟨rest, none, retryTime'⟩ := by
  refine ⟨?_, ?_⟩
  · intro key expected hmem
    exact h.todo key expected (List.mem_cons_of_mem _ hmem)
  · rintro key expected completeCount ⟨⟩

theorem checksFor_ended (retryTime : Nat) :
    Party.ChecksFor n ⟨[], none, retryTime⟩ := by
  refine ⟨?_, ?_⟩
  · rintro key expected ⟨⟩
  · rintro key expected completeCount ⟨⟩

theorem backed_start {s s' : Exchange} {r : Role} (hs : Backed n s)
    (h : s.start r = some s') : Backed n s' := by
  have hchecks := hs.checks r
  unfold Exchange.start at h
  split at h
  · rename_i op rest retryTime hparty
    rw [hparty] at hchecks
    cases op with
    | send key msg =>
        cases h
        refine backed_setParty hs ?_ ?_ (checksFor_rest hchecks) hs.complete
        · simp [hparty, Proxy.push, Party.counted]
        · rw [answers_push, hparty]
          cases key <;> cases hmsg : msg.isResult <;>
            simp [Party.answersLeft, Op.sendsAnswer, hmsg]
          omega
    | sendResult i =>
        cases h
        refine backed_setParty hs ?_ ?_ (checksFor_rest hchecks) hs.complete
        · simp [hparty, Proxy.push, Party.counted]
        · rw [answers_push, hparty]
          simp [Party.answersLeft, Op.sendsAnswer, Message.isResult]
    | recv key =>
        cases h
        refine backed_setParty hs ?_ ?_ ⟨hchecks.todo, ?_⟩ hs.complete
        · simp [hparty, Party.counted, Call.counted]
        · simp [hparty, Party.answersLeft]
        · rintro key expected completeCount ⟨⟩
    | recvPackages =>
        cases h
        refine backed_setParty hs ?_ ?_ ⟨hchecks.todo, ?_⟩ hs.complete
        · simp [hparty, Party.counted, Call.counted]
        · simp [hparty, Party.answersLeft]
        · rintro key expected completeCount ⟨⟩
    | checkSendCompleteStatus key expected =>
        cases h
        refine backed_setParty hs ?_ ?_ ⟨hchecks.todo, ?_⟩ hs.complete
        · cases key <;> simp [hparty, Party.counted, Call.counted]
        · simp [hparty, Party.answersLeft]
        · rintro key' expected' completeCount ⟨⟩
          exact hchecks.todo key expected (List.mem_cons_self ..)
  · cases h

theorem backed_turn {s s' : Exchange} {r : Role} (hs : Backed n s)
    (h : s.turn r = some s') : Backed n s' := by
  have hchecks := hs.checks r
  unfold Exchange.turn at h
  split at h
  · rename_i todo call retryTime hparty
    rw [hparty] at hchecks
    split at h
    · rename_i proxy call' hturn
      obtain ⟨htokens, hqueue, hgrows, hcounting⟩ := turn_backed hturn
      cases h
      refine backed_setParty hs ?_ ?_ ⟨hchecks.todo, ?_⟩ ?_
      · simp only [hparty, Party.counted]
        omega
      · rw [hqueue, hparty]
        exact Nat.le_refl _
      · rintro key expected completeCount ⟨⟩
        obtain ⟨before, rfl⟩ := hcounting key expected completeCount rfl
        exact hchecks.call key expected before rfl
      · exact fun hchecked => Nat.le_trans (hs.complete hchecked) hgrows
    · cases h
  · cases h

/-- One entry of a sum, replaced. -/
theorem sum_set_add {α : Type} (f : α → Nat) {xs : List α} {i : Nat} {x : α}
    (h : xs[i]? = some x) (y : α) :
    ((xs.set i y).map f).sum + f x = (xs.map f).sum + f y := by
  induction xs generalizing i with
  | nil => cases h
  | cons z zs ih =>
      cases i with
      | zero =>
          cases h
          simp only [List.set_cons_zero, List.map_cons, List.sum_cons]
          omega
      | succ i =>
          have hrest := ih (i := i) h
          simp only [List.set_cons_succ, List.map_cons, List.sum_cons]
          omega

theorem backed_turnAbandoned {s s' : Exchange} {i : Nat} (hs : Backed n s)
    (h : s.turnAbandoned i = some s') : Backed n s' := by
  unfold Exchange.turnAbandoned at h
  split at h
  · cases h
  · rename_i call hcall
    split at h
    · rename_i proxy call' hturn
      obtain ⟨htokens, hqueue, hgrows, -⟩ := turn_backed hturn
      cases h
      refine ⟨?_, ?_, hs.checks, ?_⟩
      · have hbefore := hs.tokens
        have hsum := sum_set_add Call.counted hcall call'
        change proxy.completeQueue .responseKey + s.total Party.counted
          + ((s.abandoned.set i call').map Call.counted).sum
          ≤ proxy.forwarded.length
        omega
      · dsimp only
        rw [hqueue]
        exact hs.answers
      · exact fun hchecked => Nat.le_trans (hs.complete hchecked) hgrows
    · cases h

/-- A check that has counted to the end has counted forwarded messages. -/
theorem counted_forwarded {s : Exchange} {r : Role} (hs : Backed n s)
    {todo : List Op} {key : PirKey} {expected retryTime : Nat}
    (hparty : s.party r
      = ⟨todo, some (.counting key expected expected), retryTime⟩) :
    n ≤ s.proxy.forwarded.length := by
  have hcall := (hs.checks r).call key expected expected (by rw [hparty])
  obtain ⟨rfl, rfl⟩ := hcall
  have htokens := hs.tokens
  have hheld : expected ≤ s.total Party.counted := by
    cases r <;> simp [Exchange.total, hparty, Party.counted, Call.counted]
  omega

theorem backed_answer {s s' : Exchange} {r : Role} (hs : Backed n s)
    (h : s.answer r = some s') : Backed n s' := by
  have hchecks := hs.checks r
  unfold Exchange.answer at h
  split at h
  · rename_i key rest msg retryTime hparty
    rw [hparty] at hchecks
    cases h
    refine backed_setParty hs ?_ ?_ (checksFor_rest hchecks) hs.complete
    · simp [hparty, Party.counted]
    · simp [hparty, Party.answersLeft, Op.sendsAnswer]
  · rename_i rest count retryTime hparty
    rw [hparty] at hchecks
    cases h
    refine backed_setParty hs ?_ ?_ ⟨?_, ?_⟩ hs.complete
    · simp [hparty, Party.counted]
    · simp [hparty, Party.answersLeft, Op.sendsAnswer, List.countP_replicate]
    · intro key expected hmem
      rcases List.mem_append.1 hmem with hmem | hmem
      · cases (List.mem_replicate.1 hmem).2
      · exact hchecks.todo key expected (List.mem_cons_of_mem _ hmem)
    · rintro key expected completeCount ⟨⟩
  · rename_i hparty
    cases h
    refine backed_setParty hs ?_ ?_ (checksFor_ended _) hs.complete
    · simp [hparty, Party.counted]
    · simp [hparty, Party.answersLeft]
  · rename_i op rest key expected completeCount retryTime hparty
    rw [hparty] at hchecks
    split_ifs at h with hcount
    cases h
    subst hcount
    refine backed_setParty hs ?_ ?_ (checksFor_rest hchecks)
      (fun _ => counted_forwarded hs hparty)
    · simp [hparty, Party.counted]
    · simp only [hparty, Party.answersLeft, List.countP_cons]
      omega
  · cases h

theorem backed_refuse {s s' : Exchange} {r : Role} (hs : Backed n s)
    (h : s.refuse r = some s') : Backed n s' := by
  have hchecks := hs.checks r
  unfold Exchange.refuse at h
  split at h
  · rename_i op rest key expected retryTime hparty
    rw [hparty] at hchecks
    cases h
    refine backed_setParty hs ?_ ?_ (checksFor_rest hchecks) (by rintro ⟨⟩)
    · simp [hparty, Party.counted]
    · simp only [hparty, Party.answersLeft, List.countP_cons]
      omega
  · cases h

theorem backed_fail {s s' : Exchange} {r : Role} {queued : Bool}
    (hs : Backed n s) (h : s.fail r queued = some s') : Backed n s' := by
  have hchecks := hs.checks r
  unfold Exchange.fail at h
  split at h
  -- a message that may have been queued before its call failed
  · rename_i key msg rest retryTime hparty
    cases h
    refine backed_setParty hs ?_ ?_ (checksFor_ended retryTime) ?_
    · cases queued <;> simp [hparty, Proxy.push, Party.counted]
    · cases queued with
      | false => simp [Party.answersLeft]
      | true =>
          simp only [if_true]
          rw [answers_push, hparty]
          cases key <;> cases hmsg : msg.isResult <;>
            simp [Party.answersLeft, Op.sendsAnswer, hmsg]
    · cases queued <;> exact hs.complete
  · rename_i i rest retryTime hparty
    rw [hparty] at hchecks
    -- the results that are left are given up with this one
    have hsub : (rest.dropWhile Op.isSendResult).Sublist rest :=
      List.dropWhile_sublist _
    cases h
    refine backed_setParty hs ?_ ?_ ⟨?_, ?_⟩ ?_
    · cases queued <;> simp [hparty, Proxy.push, Party.counted]
    · have hle : _ ≤ rest.countP Op.sendsAnswer := hsub.countP_le
      cases queued with
      | false =>
          simp only [hparty, Party.answersLeft, List.countP_cons]
          simp
          omega
      | true =>
          simp only [if_true]
          rw [answers_push, hparty]
          simp only [Party.answersLeft, List.countP_cons, Message.isResult]
          simp
          omega
    · intro key expected hmem
      exact hchecks.todo key expected
        (List.mem_cons_of_mem _ (hsub.subset hmem))
    · rintro key expected completeCount ⟨⟩
    · cases queued <;> exact hs.complete
  · rename_i op rest key expected completeCount retryTime hparty
    rw [hparty] at hchecks
    -- a check that is tried again, or the last one
    split_ifs at h
    · cases h
      refine backed_setParty hs ?_ ?_ ⟨hchecks.todo, ?_⟩ hs.complete
      · simp only [hparty, Party.counted, List.map_append, List.sum_append,
          List.map_singleton, List.sum_singleton]
        cases key <;> simp [Call.counted]
        omega
      · simp [hparty, Party.answersLeft]
      · rintro key' expected' completeCount' ⟨⟩
        exact hchecks.call key expected completeCount rfl
    · cases h
      refine backed_setParty hs ?_ ?_ (checksFor_rest hchecks) (by rintro ⟨⟩)
      · simp only [hparty, Party.counted, List.map_append, List.sum_append,
          List.map_singleton, List.sum_singleton]
        omega
      · simp only [hparty, Party.answersLeft, List.countP_cons]
        omega
  · rename_i hparty
    cases h
    refine backed_setParty hs ?_ ?_ (checksFor_ended _) hs.complete
    · simp only [hparty, Party.counted, List.map_append, List.sum_append,
        List.map_singleton, List.sum_singleton]
      omega
    · simp [Party.answersLeft]
  · cases h

/-- Every step keeps account. -/
theorem backed_step {s s' : Exchange} {a : ExchangeAction} (hs : Backed n s)
    (h : exchangeStep s a = some s') : Backed n s' := by
  cases a with
  | start r => exact backed_start hs h
  | turn r => exact backed_turn hs h
  | answer r => exact backed_answer hs h
  | fail r queued => exact backed_fail hs h
  | refuse r => exact backed_refuse hs h
  | turnAbandoned i => exact backed_turnAbandoned hs h

theorem backed_init (count : UInt32) :
    Backed count.toNat (Exchange.init count) := by
  refine ⟨Nat.le_refl _, ?_, ?_, by rintro ⟨⟩⟩
  · simp [Exchange.init, Exchange.total, Party.answersLeft, answers,
      serverOnExecute, processPSIParams, processOprf, processQuery,
      clientOnExecute, requestPSIParams, requestOprf, Op.sendsAnswer,
      Message.isResult, List.countP_eq_zero]
  · intro r
    cases r with
    | server =>
        refine ⟨?_, by rintro key expected completeCount ⟨⟩⟩
        intro key expected hmem
        simpa [Exchange.init, serverOnExecute, processPSIParams, processOprf,
          processQuery] using hmem
    | client =>
        refine ⟨?_, by rintro key expected completeCount ⟨⟩⟩
        intro key expected hmem
        simp [Exchange.init, clientOnExecute, requestPSIParams,
          requestOprf] at hmem

/-- When the check has counted to the end, all packages but two have been
fetched, in every run. -/
theorem complete_fetched {count : UInt32} {actions : List ExchangeAction}
    {s : Exchange}
    (h : run exchangeStep (.init count) actions = some s)
    (hchecked : s.checked = some .complete) :
    count.toNat ≤ s.fetched + 2 := by
  have hs : Backed count.toNat s :=
    run_invariant (fun _ _ _ hs hstep => backed_step hs hstep)
      (backed_init count) h
  have hforwarded := hs.complete hchecked
  have hanswers := hs.answers
  rw [answers_append] at hanswers
  rw [length_eq_answers] at hforwarded
  unfold Exchange.fetched
  omega

-- ================================================= the run stopping short

/-- Both parties are between two operations. -/
structure Between (server client : List Op) (queue : List Message)
    (tokens : Nat) (forwarded : List Message) (s : Exchange) : Prop where
  server : s.party .server = ⟨server, none, 0⟩
  client : s.party .client = ⟨client, none, 0⟩
  queue : s.proxy.recvQueue .responseKey = queue
  tokens : s.proxy.completeQueue .responseKey = tokens
  forwarded : s.proxy.forwarded = forwarded

/-- A request of the client, the server's answer, and its receipt. -/
def requestAnswer : List ExchangeAction :=
  [.start .client, .start .server, .turn .server, .turn .server,
    .answer .server, .start .server, .start .client, .turn .client,
    .turn .client, .answer .client]

/-- The exchange up to the package count. Two tokens are on the response
key by then. -/
theorem reaches_packageCount (count : UInt32) :
    ∃ s, run exchangeStep (.init count)
        (requestAnswer ++ (requestAnswer ++ requestAnswer)) = some s
      ∧ Between
          ((List.range count.toNat).map .sendResult
            ++ [.checkSendCompleteStatus .responseKey count.toNat,
              .recv .taskEnd])
          (List.replicate count.toNat (.recv .responseKey)
            ++ [.send .taskEnd .taskEnd])
          [] 2 [.psiParams, .oprfResponse] s := by
  refine ⟨_, rfl, ?_, rfl, rfl, rfl, rfl⟩
  exact congrArg (fun todo => (⟨todo, none, 0⟩ : Party))
    (List.append_assoc ((List.range count.toNat).map Op.sendResult) _ _)

theorem sends_one {i : Nat} {server client : List Op}
    {queue forwarded : List Message} {tokens : Nat} {s : Exchange}
    (hs : Between (.sendResult i :: server) client queue tokens forwarded s) :
    ∃ s', exchangeStep s (.start .server) = some s'
      ∧ Between server client (queue ++ [.resultPackage i]) tokens forwarded
          s' := by
  refine ⟨({ s with
      proxy := s.proxy.push .responseKey (.resultPackage i) }).setParty .server
        ⟨server, none, 0⟩, ?_, ?_, ?_, ?_, hs.tokens, hs.forwarded⟩
  · simp only [exchangeStep, Exchange.start, hs.server]
  · simp [Exchange.setParty]
  · simp [Exchange.setParty, hs.client]
  · simp [Exchange.setParty, Proxy.push, hs.queue]

/-- The server sends its packages. -/
theorem sends_all {is : List Nat} {server client : List Op}
    {queue forwarded : List Message} {tokens : Nat} {s : Exchange}
    (hs : Between (is.map .sendResult ++ server) client queue tokens
      forwarded s) :
    ∃ s', run exchangeStep s (List.replicate is.length (.start .server))
        = some s'
      ∧ Between server client (queue ++ is.map .resultPackage) tokens
          forwarded s' := by
  induction is generalizing queue s with
  | nil => exact ⟨s, rfl, by simpa using hs⟩
  | cons i is ih =>
      obtain ⟨s₁, hstep, hs₁⟩ := sends_one hs
      obtain ⟨s₂, hrun, hs₂⟩ := ih hs₁
      refine ⟨s₂, ?_, by simpa using hs₂⟩
      rw [List.length_cons, List.replicate_succ, run_cons hstep, hrun]

/-- The client fetches one message. -/
def fetchOne : List ExchangeAction :=
  [.start .client, .turn .client, .turn .client, .answer .client]

theorem fetches_one {server client : List Op} {msg : Message}
    {queue forwarded : List Message} {tokens : Nat} {s : Exchange}
    (hs : Between server (.recv .responseKey :: client) (msg :: queue) tokens
      forwarded s) :
    ∃ s', run exchangeStep s fetchOne = some s'
      ∧ Between server client queue (tokens + 1) (forwarded ++ [msg]) s' := by
  have hclient := hs.client
  have hqueue := hs.queue
  refine ⟨_, by
    simp [run, fetchOne, exchangeStep, Exchange.start, Exchange.turn,
      Exchange.answer, Exchange.setParty, Proxy.turn, hclient, hqueue]
    rfl, ?_, ?_, ?_, ?_, ?_⟩
  · simp [hs.server]
  · simp
  · simp
  · simp [hs.tokens]
  · simp [hs.forwarded]

/-- The client fetches as many messages as `fetched` has. -/
theorem fetches_all {server client : List Op}
    {fetched queue forwarded : List Message} {tokens : Nat} {s : Exchange}
    (hs : Between server
      (List.replicate fetched.length (.recv .responseKey) ++ client)
      (fetched ++ queue) tokens forwarded s) :
    ∃ acts s', run exchangeStep s acts = some s'
      ∧ Between server client queue (tokens + fetched.length)
          (forwarded ++ fetched) s' := by
  induction fetched generalizing tokens forwarded s with
  | nil => exact ⟨[], s, rfl, by simpa using hs⟩
  | cons msg fetched ih =>
      obtain ⟨s₁, hrun₁, hs₁⟩ := fetches_one hs
      obtain ⟨acts, s₂, hrun₂, hs₂⟩ := ih hs₁
      refine ⟨fetchOne ++ acts, s₂, ?_, ?_⟩
      · rw [run_append hrun₁, hrun₂]
      · simpa [Nat.add_assoc, Nat.add_comm 1] using hs₂

theorem counts_one {todo : List Op} {completeCount expected : Nat}
    {s : Exchange}
    (hparty : s.party .server
      = ⟨todo, some (.counting .responseKey expected completeCount), 0⟩)
    (hlt : completeCount < expected)
    (htokens : 0 < s.proxy.completeQueue .responseKey) :
    ∃ s', exchangeStep s (.turn .server) = some s'
      ∧ s'.party .server
        = ⟨todo, some (.counting .responseKey expected (completeCount + 1)), 0⟩
      ∧ s'.proxy.completeQueue .responseKey + 1
        = s.proxy.completeQueue .responseKey
      ∧ s'.proxy.forwarded = s.proxy.forwarded := by
  have hwait : ¬(completeCount = expected
      ∨ s.proxy.completeQueue .responseKey = 0) := by omega
  refine ⟨Exchange.setParty { s with
      proxy := { s.proxy with
        completeQueue := Function.update s.proxy.completeQueue .responseKey
          (s.proxy.completeQueue .responseKey - 1) } } .server
      ⟨todo, some (.counting .responseKey expected (completeCount + 1)), 0⟩,
    ?_, ?_, ?_, rfl⟩
  · simp only [exchangeStep, Exchange.turn, hparty, Proxy.turn, if_neg hwait]
  · simp [Exchange.setParty]
  · simp only [Exchange.setParty, Function.update_self]
    omega

/-- The check counts as long as there are tokens. -/
theorem counts_all {left : Nat} {todo : List Op}
    {completeCount expected : Nat} {s : Exchange}
    (hparty : s.party .server
      = ⟨todo, some (.counting .responseKey expected completeCount), 0⟩)
    (hleft : completeCount + left = expected)
    (htokens : left ≤ s.proxy.completeQueue .responseKey) :
    ∃ s', run exchangeStep s (List.replicate left (.turn .server)) = some s'
      ∧ s'.party .server
        = ⟨todo, some (.counting .responseKey expected expected), 0⟩
      ∧ s'.proxy.forwarded = s.proxy.forwarded := by
  induction left generalizing completeCount s with
  | zero =>
      refine ⟨s, rfl, ?_, rfl⟩
      rw [hparty, ← hleft, Nat.add_zero]
  | succ left ih =>
      obtain ⟨s₁, hstep, hparty₁, htokens₁, hforwarded₁⟩ :=
        counts_one hparty (by omega) (by omega)
      obtain ⟨s₂, hrun, hparty₂, hforwarded₂⟩ :=
        ih hparty₁ (by omega) (by omega)
      refine ⟨s₂, ?_, hparty₂, hforwarded₂.trans hforwarded₁⟩
      rw [List.replicate_succ, run_cons hstep, hrun]

/-- For every number of packages but none there is a run in which the
check succeeds one package early. -/
theorem stopsShort {count : UInt32} (hpos : count ≠ 0) :
    ∃ actions s, run exchangeStep (.init count) actions = some s
      ∧ s.checked = some .complete ∧ s.fetched + 1 = count.toNat := by
  obtain ⟨m, hm⟩ : ∃ m, count.toNat = m + 1 := by
    refine Nat.exists_eq_succ_of_ne_zero ?_
    intro hzero
    exact hpos (UInt32.toNat_inj.1 hzero)
  obtain ⟨s₁, hrun₁, hs₁⟩ := reaches_packageCount count
  obtain ⟨s₂, hrun₂, hs₂⟩ := sends_all hs₁
  -- all packages are on the queue; the client takes all but the last
  have hs₂' : Between
      [.checkSendCompleteStatus .responseKey (m + 1), .recv .taskEnd]
      (List.replicate ((List.range m).map Message.resultPackage).length
          (.recv .responseKey)
        ++ [.recv .responseKey, .send .taskEnd .taskEnd])
      ((List.range m).map .resultPackage ++ [.resultPackage m]) 2
      [.psiParams, .oprfResponse] s₂ := by
    rw [hm, List.range_succ, List.replicate_succ'] at hs₂
    simpa using hs₂
  obtain ⟨acts, s₃, hrun₃, hs₃⟩ := fetches_all hs₂'
  -- the server finds two tokens more than packages fetched
  obtain ⟨s', hstart, hserver', hproxy'⟩ :
      ∃ s', exchangeStep s₃ (.start .server) = some s'
        ∧ s'.party .server
          = ⟨[.checkSendCompleteStatus .responseKey (m + 1), .recv .taskEnd],
              some (.counting .responseKey (m + 1) 0), 0⟩
        ∧ s'.proxy = s₃.proxy := by
    refine ⟨s₃.setParty .server
      ⟨[.checkSendCompleteStatus .responseKey (m + 1), .recv .taskEnd],
        some (.counting .responseKey (m + 1) 0), 0⟩, ?_, ?_, rfl⟩
    · simp only [exchangeStep, Exchange.start, hs₃.server]
    · simp [Exchange.setParty]
  have htokens : m + 1 ≤ s'.proxy.completeQueue .responseKey := by
    rw [hproxy', hs₃.tokens, List.length_map, List.length_range]
    omega
  obtain ⟨s₄, hrun₄, hserver₄, hforwarded₄⟩ :=
    counts_all hserver' (Nat.zero_add _) htokens
  have hanswer : exchangeStep s₄ (.answer .server)
      = some ({ s₄ with checked := some .complete }.setParty .server
          ⟨[.recv .taskEnd], none, 0⟩) := by
    simp only [exchangeStep, Exchange.answer, hserver₄, if_true]
  refine ⟨requestAnswer ++ (requestAnswer ++ requestAnswer)
      ++ (List.replicate (List.range count.toNat).length (.start .server)
      ++ (acts ++ .start .server
        :: (List.replicate (m + 1) (.turn .server) ++ [.answer .server]))),
    { s₄ with checked := some .complete }.setParty .server
      ⟨[.recv .taskEnd], none, 0⟩, ?_, rfl, ?_⟩
  · rw [run_append hrun₁, run_append hrun₂, run_append hrun₃,
      run_cons hstart, run_append hrun₄, run_cons hanswer, run_nil]
  · have hforwarded := hforwarded₄.trans (hproxy' ▸ hs₃.forwarded)
    have hresults : ((List.range m).map Message.resultPackage).countP
        Message.isResult = m := by
      rw [List.countP_map, List.countP_eq_length.2 (by intro i _; rfl),
        List.length_range]
    change s₄.proxy.forwarded.countP Message.isResult + 1 = count.toNat
    rw [hforwarded, List.countP_append, hresults, hm]
    simp [Message.isResult]

-- ================================================================ result

/-- The check means that every package has been fetched, in every run,
exactly if there is none. -/
theorem checkMeansFetched_iff (packageCount : UInt32) :
    CheckMeansFetched packageCount ↔ packageCount = 0 := by
  constructor
  · intro hfetched
    by_contra hpos
    obtain ⟨actions, s, hrun, hchecked, hshort⟩ := stopsShort hpos
    have hle := hfetched actions s hrun (by rw [hchecked]; simp)
    omega
  · rintro rfl actions s - -
    exact Nat.zero_le _

/-- One package, and a client that does not fetch it. -/
def restingClient : List ExchangeAction :=
  requestAnswer ++ (requestAnswer ++ (requestAnswer
    ++ [.start .server, .start .server, .turn .server, .answer .server]))

/-- The server takes the package for fetched while it is still on the
queue. -/
theorem restingClient_checked :
    ∃ s, run exchangeStep (.init 1) restingClient = some s
      ∧ s.checked.map CheckReturn.retcode = some .success ∧ s.fetched = 0
      ∧ s.proxy.recvQueue .responseKey = [.resultPackage 0]
      ∧ ¬CheckMeansFetched 1 := by
  refine ⟨_, rfl, rfl, rfl, rfl, ?_⟩
  intro hfetched
  have hle := hfetched restingClient _ rfl (by simp [Exchange.setParty])
  exact absurd hle (by decide)

end PrimiHub.Pir
