import AgentStudio.Api.Requests
import AgentStudio.Daemon.Attempts

/-!
# One execution for one idempotency key

`Lawful` is what idempotency keys and the executor promise: the requests to one endpoint with one
key answer with one task and lead to one execution, apart from retries; a webhook answers with no
task that another webhook or endpoint has created; and the executor does not claim what a request
has started.

The server breaks it. `v1_submit_run` looks for `deduped` where it is not, and starts the
specification or the node or the graph of the request in every case, and so does the invocation of a
webhook with its graph; the keys of all endpoints are one column of the task table; and the task of
a webhook has no owner while the request waits to start its graph. `once_of_regular` says that
nothing else is wrong: the law holds in every run in which a key meets a stored task only in
requests that run nothing themselves (`MeetsOnce`) and the executor does not claim a task whose
request is still to start it (`Regular`).

The invariant (`Inv`) has two parts, what holds of each row of the table (`RowOk`) and what holds of
the records (`Records`).
-/

namespace AgentStudio.Requests

open PyText PyJson PyDict Tasks Daemon Machine

/-! ### The law -/

/-- Two starts are attempts of the executor, one of them after more retries. -/
def Start.Retries (a b : Start) : Prop :=
  match a.starter, b.starter with
  | .executor m, .executor n => m ≠ n
  | _, _ => False

instance (a b : Start) : Decidable (a.Retries b) := by
  unfold Start.Retries
  split <;> infer_instance

/-- Two requests have come to one endpoint with one key. -/
def Ticket.Repeats (x y : Ticket) : Prop := x.key ≠ [] ∧ x.endpoint = y.endpoint ∧ x.key = y.key

structure Lawful (s : Server) : Prop where
  /-- Repeated requests answer with one task. -/
  same : ∀ x ∈ s.answers, ∀ y ∈ s.answers, x.Repeats y → x.runId = y.runId
  /-- The executions of the tasks of repeated requests are retries of one. -/
  once : s.starts.Pairwise fun a b => ∀ x ∈ s.tickets, ∀ y ∈ s.tickets, x.Repeats y →
    x.runId = a.task → y.runId = b.task → a.Retries b
  /-- A webhook answers a key with a task of its own. -/
  own : ∀ x ∈ s.answers, x.key ≠ [] → x.endpoint ≠ .runs →
    ∀ c ∈ s.created, c.1 = x.runId → c.2 = x.endpoint
  /-- The executor claims no task that a request has started. -/
  apart : ∀ a ∈ s.starts, a.starter = .request → ∀ c ∈ s.claims, c.1 ≠ a.task

/-! ### When it holds -/

/-- The condition on a request that submits a task under a key: the tasks that the endpoint has
given to the key are still stored, and if a task is stored under the key, the request runs nothing
itself, and if it comes to a webhook, no other endpoint has created the task. -/
def Server.MeetsOnce (s : Server) (key : Str) (plan : Plan) (clock : ℕ → ℤ) : Prop :=
  key ≠ [] →
    (∀ x ∈ s.tickets, x.endpoint = plan.endpoint → x.key = key →
      ((s.world.store.reapExpired (clock 2)).2.db.tasks.find x.runId).isSome) ∧
    ∀ r ∈ (s.world.store.reapExpired (clock 2)).2.db.findByIdempotencyKey key,
      plan.executes = false ∧
        (plan.endpoint ≠ .runs → ∀ c ∈ s.created, c.1 = r.taskId → c.2 = plan.endpoint)

instance (s : Server) (key : Str) (plan : Plan) (clock : ℕ → ℤ) :
    Decidable (s.MeetsOnce key plan clock) := by
  unfold Server.MeetsOnce
  infer_instance

def Regular (i : Input) (s : Server) : Prop :=
  match i with
  | .run d b clock =>
    match b.prepare d with
    | .error _ => True
    | .ok (_, plan) => s.MeetsOnce b.idempotencyKey plan clock
  | .invoke _ i now clock =>
    match i.check with
    | .error _ => True
    | .ok (webhook, _) =>
      (s.remembered i now).1 = [] → s.MeetsOnce i.key (.webhook i.hookId webhook.graphId) clock
  | .poll _ _ =>
    ∀ r ∈ s.world.store.db.candidate "*", ∀ q ∈ s.requests, q.plan.executes = true →
      q.runId ≠ r.taskId
  | _ => True

instance (s : Server) : ∀ i, Decidable (Regular i s)
  | .run d b clock => by
    unfold Regular
    dsimp only
    split <;> infer_instance
  | .invoke d i now clock => by
    unfold Regular
    dsimp only
    split <;> infer_instance
  | .finish _ _ _ _ => isTrue trivial
  | .poll _ _ => by
    unfold Regular
    infer_instance
  | .resume _ _ => isTrue trivial
  | .write _ _ _ => isTrue trivial

/-! ### The invariant -/

/-- What holds of a row: it has the key of the requests that have got it; the attempts at it are
over, and of the last one it is not pending again; the executor cannot claim it if a request has
started it; and if a request is still to start it, the store sees it, and a run has its owner. -/
structure RowOk (s : Server) (k : Str) (r : Row) : Prop where
  ticket : ∀ x ∈ s.tickets, x.runId = k → x.key ≠ [] → r.idempotencyKey = x.key
  claim : ∀ c ∈ s.claims, c.1 = k →
    c.2 < r.retryCount ∨ c.2 = r.retryCount ∧ r.status ≠ .pending
  start : ∀ a ∈ s.starts, a.starter = .request → a.task = k → r.status = .pending →
    r.ownerAgent ≠ []
  request : ∀ q ∈ s.requests, q.plan.executes = true → q.runId = k →
    s.world.store.sees k = true ∧ (q.plan.endpoint = .runs → r.ownerAgent ≠ [])

inductive Server.Names (s : Server) : Str → Prop
  | ticket {x : Ticket} (h : x ∈ s.tickets) : s.Names x.runId
  | created {c : Str × Endpoint} (h : c ∈ s.created) : s.Names c.1
  | claim {c : Str × ℤ} (h : c ∈ s.claims) : s.Names c.1
  | start {a : Start} (h : a ∈ s.starts) : s.Names a.task

/-- The executor has not claimed the task, and nothing has started it. -/
structure Server.Free (s : Server) (k : Str) : Prop where
  claims : ∀ c ∈ s.claims, c.1 ≠ k
  starts : ∀ a ∈ s.starts, a.task ≠ k

structure Records (s : Server) : Prop where
  same : ∀ x ∈ s.tickets, ∀ y ∈ s.tickets, x.Repeats y → x.runId = y.runId
  own : ∀ x ∈ s.tickets, x.key ≠ [] → x.endpoint ≠ .runs →
    ∀ c ∈ s.created, c.1 = x.runId → c.2 = x.endpoint
  remembered : ∀ m ∈ s.idempotency, ∃ hookId key, key ≠ [] ∧ m.1 = cacheKey hookId key ∧
    ⟨.webhook hookId, key, m.2.1⟩ ∈ s.tickets
  answers : ∀ x ∈ s.answers, x ∈ s.tickets
  requests : ∀ q ∈ s.requests, q.ticket ∈ s.tickets
  claims : s.claims.Nodup
  workers : (s.workers.map Attempt.key).Sublist s.claims
  waiting : ∀ x ∈ s.workers, x.worker.waiting = true →
    ⟨x.worker.taskId, .executor x.attempt⟩ ∉ s.starts
  attempts : ∀ a ∈ s.starts, ∀ n, a.starter = .executor n → (a.task, n) ∈ s.claims
  apart : ∀ a ∈ s.starts, a.starter = .request → ∀ c ∈ s.claims, c.1 ≠ a.task
  free : ∀ q ∈ s.requests, q.plan.executes = true → s.Free q.runId
  pending : s.requests.Pairwise fun q q' =>
    q.plan.executes = true → q'.plan.executes = true → q.runId ≠ q'.runId
  once : s.starts.Pairwise fun a b => a.task = b.task → a.Retries b

structure Inv (s : Server) : Prop where
  cached : s.world.store.Cached
  issued : ∀ k, s.Names k → s.world.store.Issued k
  rows : ∀ k r, s.world.store.db.tasks.find k = some r → s.world.store.Issued k ∧ RowOk s k r
  records : Records s

theorem Records.lawful {s : Server} (h : Records s) : Lawful s where
  same x hx y hy := h.same x (h.answers x hx) y (h.answers y hy)
  once := h.once.imp fun hab x hx y hy hrepeats hxa hyb =>
    hab (hxa.symm.trans ((h.same x hx y hy hrepeats).trans hyb))
  own x hx := h.own x (h.answers x hx)
  apart := h.apart

theorem inv_opened (lazyLoad : Bool) (ttl : ℤ) : Inv (Server.opened lazyLoad ttl) where
  cached := Store.cached_open lazyLoad Table.empty [] [] ttl
  issued k hk := by cases hk <;> next h => exact absurd h List.not_mem_nil
  rows k r hr := nomatch (hr : none = some r)
  records := {
    same := List.forall_mem_nil _
    own := List.forall_mem_nil _
    remembered := List.forall_mem_nil _
    answers := List.forall_mem_nil _
    requests := List.forall_mem_nil _
    claims := List.nodup_nil
    workers := List.Sublist.refl []
    waiting := List.forall_mem_nil _
    attempts := List.forall_mem_nil _
    apart := List.forall_mem_nil _
    free := List.forall_mem_nil _
    pending := List.Pairwise.nil
    once := List.Pairwise.nil }

/-! ### Records and rows -/

variable {s s' : Server}

variable {k : Str} {clock : ℕ → ℤ}

theorem Server.Names.mono (h : s'.Names k) (htickets : s'.tickets ⊆ s.tickets)
    (hcreated : s'.created ⊆ s.created) (hclaims : s'.claims ⊆ s.claims)
    (hstarts : s'.starts ⊆ s.starts) : s.Names k := by
  cases h with
  | ticket h => exact .ticket (htickets h)
  | created h => exact .created (hcreated h)
  | claim h => exact .claim (hclaims h)
  | start h => exact .start (hstarts h)

theorem Server.Names.of_eq {k' : Str} (h : s.Names k) (hk : k = k') : s.Names k' := hk ▸ h

/-- A row follows, nothing that is new in the records is about it, and the store sees its task if it
has seen it. -/
theorem RowOk.follows {r r' : Row} (h : RowOk s k r) (hrow : Follows r r')
    (htickets : ∀ x ∈ s'.tickets, x.runId = k → x ∈ s.tickets)
    (hclaims : ∀ c ∈ s'.claims, c.1 = k → c ∈ s.claims)
    (hstarts : ∀ a ∈ s'.starts, a.task = k → a ∈ s.starts)
    (hrequests : ∀ q ∈ s'.requests, q.runId = k → q ∈ s.requests)
    (hsees : s.world.store.sees k = true → s'.world.store.sees k = true) : RowOk s' k r' where
  ticket x hx hk hkey := hrow.key.trans (h.ticket x (htickets x hx hk) hk hkey)
  claim c hc hk := by
    rw [hrow.retryCount]
    exact (h.claim c (hclaims c hc hk) hk).imp_right fun hlast => ⟨hlast.1, hlast.2 ∘ hrow.pending⟩
  start a ha hstarter hk := hrow.not_claimable (h.start a (hstarts a ha hk) hstarter hk)
  request q hq hexec hk := by
    obtain ⟨hseen, howner⟩ := h.request q (hrequests q hq hk) hexec hk
    exact ⟨hsees hseen, fun hruns => hrow.owner.symm ▸ howner hruns⟩

theorem RowOk.mono {r : Row} (h : RowOk s k r) (htickets : s'.tickets ⊆ s.tickets)
    (hclaims : s'.claims ⊆ s.claims) (hstarts : s'.starts ⊆ s.starts)
    (hrequests : s'.requests ⊆ s.requests) (hworld : s'.world = s.world) : RowOk s' k r :=
  h.follows (.refl r) (fun _ hx _ => htickets hx) (fun _ hc _ => hclaims hc)
    (fun _ ha _ => hstarts ha) (fun _ hq _ => hrequests hq) (hworld ▸ id)

theorem Server.Free.mono (h : s.Free k) (hclaims : s'.claims ⊆ s.claims)
    (hstarts : s'.starts ⊆ s.starts) : s'.Free k :=
  ⟨fun c hc => h.claims c (hclaims hc), fun a ha => h.starts a (hstarts ha)⟩

theorem Records.setWorld (h : Records s) (w : World) : Records { s with world := w } :=
  { h with free := fun q hq hexec => (h.free q hq hexec).mono (.refl _) (.refl _) }

theorem Inv.tame (h : Inv s) {w : World} (hw : Store.Tame s.world.store w.store) :
    Inv { s with world := w } where
  cached := hw.cached
  issued k hk := (h.issued k (hk.mono (.refl _) (.refl _) (.refl _) (.refl _))).mono hw.idSeq
  rows k r' hr' := by
    obtain ⟨r, hr, hrow⟩ := hw.row k r' hr'
    obtain ⟨hissued, hok⟩ := h.rows k r hr
    exact ⟨hissued.mono hw.idSeq, hok.follows hrow (fun _ hx _ => hx) (fun _ hc _ => hc)
      (fun _ ha _ => ha) (fun _ hq _ => hq) (hw.sees k r' hr')⟩
  records := h.records.setWorld w

/-! ### The ends of requests -/

theorem Inv.erase (h : Inv s) (n : ℕ) : Inv { s with requests := s.requests.eraseIdx n } where
  cached := h.cached
  issued k hk := h.issued k (hk.mono (.refl _) (.refl _) (.refl _) (.refl _))
  rows k r hr := (h.rows k r hr).imp_right fun hok =>
    hok.mono (.refl _) (.refl _) (.refl _) (List.eraseIdx_subset) rfl
  records := {
    h.records with
    requests := fun q hq => h.records.requests q (List.mem_of_mem_eraseIdx hq)
    free := fun q hq hexec =>
      (h.records.free q (List.mem_of_mem_eraseIdx hq) hexec).mono (.refl _) (.refl _)
    pending := h.records.pending.sublist (List.eraseIdx_sublist _ _) }

theorem Inv.answered (h : Inv s) {x : Ticket} (hx : x ∈ s.tickets) : Inv (s.answered x) where
  cached := h.cached
  issued k hk := h.issued k (hk.mono (.refl _) (.refl _) (.refl _) (.refl _))
  rows k r hr := (h.rows k r hr).imp_right fun hok =>
    hok.mono (.refl _) (.refl _) (.refl _) (.refl _) rfl
  records := {
    h.records with
    answers := fun y hy => by
      rcases mem_snoc.mp hy with hy | rfl
      · exact h.records.answers y hy
      · exact hx
    free := fun q hq hexec => (h.records.free q hq hexec).mono (.refl _) (.refl _) }

theorem Inv.setIdempotency (h : Inv s) {keys : List (Str × Str × ℤ)}
    (hkeys : ∀ m ∈ keys, ∃ hookId key, key ≠ [] ∧ m.1 = cacheKey hookId key ∧
      ⟨.webhook hookId, key, m.2.1⟩ ∈ s.tickets) : Inv { s with idempotency := keys } where
  cached := h.cached
  issued k hk := h.issued k (hk.mono (.refl _) (.refl _) (.refl _) (.refl _))
  rows k r hr := (h.rows k r hr).imp_right fun hok =>
    hok.mono (.refl _) (.refl _) (.refl _) (.refl _) rfl
  records := {
    h.records with
    remembered := hkeys
    free := fun q hq hexec => (h.records.free q hq hexec).mono (.refl _) (.refl _) }

/-- A request starts a task that is free, that no other request is to start, and that the executor
cannot claim. -/
theorem Inv.started (h : Inv s) (hfree : s.Free k) (hnames : s.Names k)
    (hrequests : ∀ q ∈ s.requests, q.plan.executes = true → q.runId ≠ k)
    (hrow : ∀ r, s.world.store.db.tasks.find k = some r → r.status = .pending → r.ownerAgent ≠ []) :
    Inv (s.started k .request) where
  cached := h.cached
  issued k' hk := by
    cases hk with
    | ticket h' => exact h.issued _ (.ticket h')
    | created h' => exact h.issued _ (.created h')
    | claim h' => exact h.issued _ (.claim h')
    | start h' =>
      rcases mem_snoc.mp h' with h' | rfl
      · exact h.issued _ (.start h')
      · exact h.issued _ hnames
  rows k' r hr := by
    obtain ⟨hissued, hok⟩ := h.rows k' r hr
    refine ⟨hissued, hok.ticket, hok.claim, fun a ha hstarter hk => ?_, hok.request⟩
    rcases mem_snoc.mp ha with ha | rfl
    · exact hok.start a ha hstarter hk
    · obtain rfl : k = k' := hk
      exact hrow r hr
  records := {
    h.records with
    waiting := fun x hx hwaiting hmem => by
      rcases List.mem_append.mp hmem with hmem | hmem
      · exact h.records.waiting x hx hwaiting hmem
      · exact Starter.noConfusion (congrArg Start.starter (List.mem_singleton.mp hmem))
    attempts := fun a ha n hn => by
      rcases mem_snoc.mp ha with ha | rfl
      · exact h.records.attempts a ha n hn
      · exact Starter.noConfusion hn
    apart := fun a ha hstarter => by
      rcases mem_snoc.mp ha with ha | rfl
      · exact h.records.apart a ha hstarter
      · exact hfree.claims
    free := fun q hq hexec => by
      refine ⟨(h.records.free q hq hexec).claims, fun a ha => ?_⟩
      rcases mem_snoc.mp ha with ha | rfl
      · exact (h.records.free q hq hexec).starts a ha
      · exact (hrequests q hq hexec).symm
    once := by
      refine List.pairwise_append.mpr ⟨h.records.once, List.pairwise_singleton _ _, ?_⟩
      intro a ha b hb htask
      obtain rfl := List.mem_singleton.mp hb
      exact absurd htask (hfree.starts a ha) }

/-- A request that is to start its task: the task is free, no other request is to start it, and the
store sees it with the owner of a run. -/
structure Server.Ready (s : Server) (q : Request) : Prop where
  inv : Inv s
  ticket : q.ticket ∈ s.tickets
  free : s.Free q.runId
  others : ∀ q' ∈ s.requests, q'.plan.executes = true → q'.runId ≠ q.runId
  row : ∀ r, s.world.store.db.tasks.find q.runId = some r →
    s.world.store.sees q.runId = true ∧ (q.plan.endpoint = .runs → r.ownerAgent ≠ [])

theorem rel_of_mem_eraseIdx {α : Type} {R : α → α → Prop} {l : List α} (hl : l.Pairwise R) {n : ℕ}
    {p e : α} (hp : l[n]? = some p) (he : e ∈ l.eraseIdx n) : R e p ∨ R p e := by
  obtain ⟨hn, rfl⟩ := List.getElem?_eq_some_iff.mp hp
  have hsplit : l = l.take n ++ l[n] :: l.drop (n + 1) := by
    rw [List.getElem_cons_drop, List.take_append_drop]
  rw [hsplit] at hl
  obtain ⟨-, hrest, hbefore⟩ := List.pairwise_append.mp hl
  rw [List.eraseIdx_eq_take_drop_succ] at he
  rcases List.mem_append.mp he with he | he
  · exact .inl (hbefore e he _ List.mem_cons_self)
  · exact .inr ((List.pairwise_cons.mp hrest).1 e he)

theorem Inv.ready (h : Inv s) {n : ℕ} {q : Request} (hq : s.requests[n]? = some q)
    (hexec : q.plan.executes = true) :
    ({ s with requests := s.requests.eraseIdx n } : Server).Ready q where
  inv := h.erase n
  ticket := h.records.requests q (List.mem_of_getElem? hq)
  free := (h.records.free q (List.mem_of_getElem? hq) hexec).mono (.refl _) (.refl _)
  others q' hq' hexec' := by
    rcases rel_of_mem_eraseIdx h.records.pending hq hq' with hne | hne
    · exact hne hexec' hexec
    · exact (hne hexec hexec').symm
  row r hr := (h.rows _ r hr).2.request q (List.mem_of_getElem? hq) hexec rfl

namespace Server.Ready

variable {q : Request}

theorem started (h : s.Ready q) {w : World} (hw : Store.Tame s.world.store w.store)
    (hrow : ∀ r, w.store.db.tasks.find q.runId = some r → r.status = .pending → r.ownerAgent ≠ []) :
    Inv ({ s with world := w }.started q.runId .request) :=
  (h.inv.tame hw).started (h.free.mono (.refl _) (.refl _))
    (Server.Names.ticket (s := { s with world := w }) (x := q.ticket) h.ticket) h.others hrow

theorem sees (h : s.Ready q) {w : World} (hw : Store.Tame s.world.store w.store) {r : Row}
    (hr : w.store.db.tasks.find q.runId = some r) : s.world.store.sees q.runId = true := by
  obtain ⟨r₀, hr₀, -⟩ := hw.row _ r hr
  exact (h.row r₀ hr₀).1

theorem runId_ne_nil (h : s.Ready q) : q.runId ≠ [] := by
  obtain ⟨now, n, hid, -⟩ := h.inv.issued _ (.ticket h.ticket)
  rw [show q.runId = _ from hid]
  exact List.cons_ne_nil _ _

theorem executeGraph (h : s.Ready q) (graphId : Str) (a : Answer) :
    Inv (s.executeGraph q.runId graphId a) := by
  have hw := startExecution_tame h.inv.cached { graphId, taskId := q.runId } a
  unfold Server.executeGraph
  split <;> next heq =>
    rw [heq] at hw
    first
    | exact h.inv.tame hw
    | exact h.started hw fun r hr hpending => absurd hpending
        (startExecution_running h.inv.cached heq h.runId_ne_nil (h.sees hw hr) hr)

end Server.Ready

theorem dispatch_of_not_executes {r : Api.RunRequest} {spec : Api.Members} {sandbox : Option Str}
    (h : (Plan.run r spec sandbox).executes = false) (d : Api.Daemon) (a : Api.Answers) :
    d.dispatch a r spec sandbox = .ok .queued ∨ d.dispatch a r spec sandbox = .ok .nothing := by
  simp only [Plan.executes, decide_eq_false_iff_not, not_or, not_not] at h
  obtain ⟨rfl, hgraph, rfl⟩ := h
  have hdispatch : d.dispatch a r [] none =
      if a.deduped = true ∨ a.runId = [] then .ok .nothing else .ok .queued := by
    simp [Api.Daemon.dispatch, hgraph]
  rw [hdispatch]
  split_ifs
  · exact .inr rfl
  · exact .inl rfl

theorem Inv.finishRun (h : Inv s) {q : Request} (hticket : q.ticket ∈ s.tickets)
    {r : Api.RunRequest} {spec : Api.Members} {sandbox : Option Str}
    (hplan : q.plan = .run r spec sandbox) (hready : q.plan.executes = true → s.Ready q)
    (d : Api.Daemon) (delegation : Option Str) (a : Answer) :
    Inv (s.finishRun d delegation q r spec sandbox a) := by
  cases hexec : q.plan.executes with
  | false =>
    unfold Server.finishRun
    rcases dispatch_of_not_executes (hplan ▸ hexec) d ⟨q.runId, q.reply.deduped, delegation⟩ with
      hd | hd <;> rw [hd] <;> exact h.answered hticket
  | true =>
    have hready := hready hexec
    have hruns : q.plan.endpoint = .runs := by rw [hplan]; rfl
    have hstatus {status : Status} (hne : status ≠ .pending) (error : Str) : Store.Tame
        s.world.store (s.world.updateStatus q.runId status none error (a.clock 0)).store :=
      World.tame_updateStatus h.cached _ hne none error _
    unfold Server.finishRun
    split
    · exact h.tame (hstatus (by decide) _)
    · have hrunning := hstatus (show Status.running ≠ .pending by decide) []
      refine (hready.started hrunning fun r hr hpending => ?_).answered hticket
      have hset := Store.Cached.status_of_updateStatus h.cached (hready.sees hrunning hr) rfl hr
      exact absurd (hset.symm.trans hpending) (by decide)
    · refine (hready.started (.refl h.cached) fun r hr _ => ?_).answered hticket
      exact (hready.row r hr).2 hruns
    · exact (hready.executeGraph _ a).answered (by
        unfold Server.executeGraph
        split <;> exact hticket)
    · exact h.answered hticket
    · exact h.answered hticket

theorem Inv.finishInvoke (h : Inv s) {q : Request} (hticket : q.ticket ∈ s.tickets)
    {hookId : HookId} {graphId : Str} (hplan : q.plan = .webhook hookId graphId)
    (hready : q.plan.executes = true → s.Ready q) (a : Answer) :
    Inv (s.finishInvoke q hookId graphId a) := by
  have hkeys : ∀ m ∈ (if q.key ≠ [] ∧ q.runId ≠ [] then
      recordIdempotency (cacheKey hookId q.key) q.runId a.now s.idempotency else s.idempotency),
      ∃ hookId key, key ≠ [] ∧ m.1 = cacheKey hookId key ∧
        ⟨.webhook hookId, key, m.2.1⟩ ∈ s.tickets := by
    intro m hm
    split_ifs at hm with hkey
    · rcases mem_setItem hm with rfl | hm
      · refine ⟨hookId, q.key, hkey.1, rfl, ?_⟩
        have hq : q.ticket = ⟨.webhook hookId, q.key, q.runId⟩ := by rw [Request.ticket, hplan]; rfl
        exact hq ▸ hticket
      · exact h.records.remembered m (List.mem_filter.mp hm).1
    · exact h.records.remembered m hm
  have hset := h.setIdempotency hkeys
  unfold Server.finishInvoke
  dsimp only
  by_cases hgraph : graphId ≠ [] ∧ q.runId ≠ []
  · have hexec : q.plan.executes = true := by
      rw [hplan]
      exact decide_eq_true hgraph.1
    have hready := hready hexec
    rw [if_pos hgraph]
    refine Inv.answered (Server.Ready.executeGraph
      ⟨hset, hready.ticket, ?_, hready.others, hready.row⟩ graphId a) ?_
    · exact hready.free.mono (.refl _) (.refl _)
    · unfold Server.executeGraph
      split <;> exact hticket
  · rw [if_neg hgraph]
    exact hset.answered hticket

/-- **The second half of a request.** -/
theorem Inv.finish (h : Inv s) (n : ℕ) (d : Api.Daemon) (delegation : Option Str) (a : Answer) :
    Inv (s.finish n d delegation a) := by
  unfold Server.finish
  cases hq : s.requests[n]? with
  | none => exact h
  | some q =>
    have hticket := h.records.requests q (List.mem_of_getElem? hq)
    have hready := h.ready hq
    dsimp only
    cases hplan : q.plan with
    | run r spec sandbox => exact (h.erase n).finishRun hticket hplan hready d delegation a
    | webhook hookId graphId => exact (h.erase n).finishInvoke hticket hplan hready a

/-! ### The beginnings of requests -/

theorem Inv.again (h : Inv s) {x : Ticket} (hx : x ∈ s.tickets) :
    Inv { s with tickets := s.tickets ++ [x] } := by
  have hsub : s.tickets ++ [x] ⊆ s.tickets :=
    List.append_subset.mpr ⟨.refl _, fun y hy => List.mem_singleton.mp hy ▸ hx⟩
  exact {
    cached := h.cached
    issued := fun k hk => h.issued k (hk.mono hsub (.refl _) (.refl _) (.refl _))
    rows := fun k r hr => (h.rows k r hr).imp_right fun hok =>
      hok.mono hsub (.refl _) (.refl _) (.refl _) rfl
    records := {
      h.records with
      same := fun y hy z hz => h.records.same y (hsub hy) z (hsub hz)
      own := fun y hy => h.records.own y (hsub hy)
      remembered := fun m hm => by
        obtain ⟨hookId, key, hkey, hcache, hmem⟩ := h.records.remembered m hm
        exact ⟨hookId, key, hkey, hcache, List.mem_append_left _ hmem⟩
      answers := fun y hy => List.mem_append_left _ (h.records.answers y hy)
      requests := fun q hq => List.mem_append_left _ (h.records.requests q hq)
      free := fun q hq hexec => (h.records.free q hq hexec).mono (.refl _) (.refl _) } }

theorem Inv.rowOk_new (h : Inv s) (hnames : ¬ s.Names k) (w : World) (r : Row) :
    RowOk { s with world := w } k r where
  ticket _ hx hk := absurd ((Server.Names.ticket (s := s) hx).of_eq hk) hnames
  claim _ hc hk := absurd ((Server.Names.claim (s := s) hc).of_eq hk) hnames
  start _ ha _ hk := absurd ((Server.Names.start (s := s) ha).of_eq hk) hnames
  request q hq _ hk :=
    absurd ((Server.Names.ticket (h.records.requests q hq)).of_eq hk) hnames

theorem Inv.writes (h : Inv s) {id : Str} {row : Row} {w : World}
    (hw : Store.Writes id row s.world.store w.store) (hissued : w.store.Issued id)
    (hnew : RowOk { s with world := w } id row) : Inv { s with world := w } where
  cached := hw.cached
  issued k hk := (h.issued k (hk.mono (.refl _) (.refl _) (.refl _) (.refl _))).mono hw.idSeq
  rows k r' hr' := by
    rcases hw.row k r' hr' with ⟨rfl, rfl⟩ | ⟨hk, r, hr, hrow⟩
    · exact ⟨hissued, hnew⟩
    · obtain ⟨hissued', hok⟩ := h.rows k r hr
      exact ⟨hissued'.mono hw.idSeq, hok.follows hrow (fun _ hx _ => hx) (fun _ hc _ => hc)
        (fun _ ha _ => ha) (fun _ hq _ => hq) (hw.sees k r' hr' hk)⟩
  records := h.records.setWorld w

/-- A request gets a task that repeated requests have got before it; the task is one that is stored
and that the request does not run, or a new one. -/
theorem Inv.accept (h : Inv s) {q : Request} (hissued : s.world.store.Issued q.runId)
    (hsame : ∀ y ∈ s.tickets, y.Repeats q.ticket → y.runId = q.runId)
    (hcase : q.reply.taskDeduped = true ∧ q.plan.executes = false ∧
        (q.key ≠ [] → q.plan.endpoint ≠ .runs →
          ∀ c ∈ s.created, c.1 = q.runId → c.2 = q.plan.endpoint) ∨
      q.reply.taskDeduped = false ∧ ¬ s.Names q.runId)
    (hrow : ∀ r, s.world.store.db.tasks.find q.runId = some r →
      (q.key ≠ [] → r.idempotencyKey = q.key) ∧
        (q.plan.executes = true → s.world.store.sees q.runId = true ∧
          (q.plan.endpoint = .runs → r.ownerAgent ≠ []))) :
    Inv (s.accept q) := by
  have hcreated : ∀ c ∈ (s.accept q).created, c ∈ s.created ∨
      c = (q.runId, q.plan.endpoint) ∧ ¬ s.Names q.runId := by
    intro c hc
    rcases hcase with ⟨hflag, -⟩ | ⟨hflag, hnames⟩ <;>
      simp only [Server.accept, hflag, if_true, Bool.false_eq_true, if_false] at hc
    · exact .inl hc
    · exact (List.mem_append.mp hc).imp_right fun hc => ⟨List.mem_singleton.mp hc, hnames⟩
  have hfree : q.plan.executes = true → ¬ s.Names q.runId := by
    intro hexec
    rcases hcase with ⟨-, hno, -⟩ | ⟨-, hnames⟩
    · rw [hexec] at hno
      exact Bool.noConfusion hno
    · exact hnames
  refine ⟨h.cached, fun k hk => ?_, fun k r hr => ?_, ?_⟩
  · cases hk with
    | ticket hx =>
      rcases mem_snoc.mp hx with hx | rfl
      · exact h.issued _ (.ticket hx)
      · exact hissued
    | created hc =>
      rcases hcreated _ hc with hc | ⟨rfl, -⟩
      · exact h.issued _ (.created hc)
      · exact hissued
    | claim hc => exact h.issued _ (.claim hc)
    | start ha => exact h.issued _ (.start ha)
  · obtain ⟨hissued', hok⟩ := h.rows k r hr
    refine ⟨hissued', ⟨fun x hx hk hkey => ?_, hok.claim, hok.start, fun q' hq' hexec hk => ?_⟩⟩
    · rcases mem_snoc.mp hx with hx | rfl
      · exact hok.ticket x hx hk hkey
      · obtain rfl : q.runId = k := hk
        exact (hrow r hr).1 hkey
    · rcases mem_snoc.mp hq' with hq' | rfl
      · exact hok.request q' hq' hexec hk
      · obtain rfl : q'.runId = k := hk
        exact (hrow r hr).2 hexec
  · exact {
      h.records with
      same := fun x hx y hy hrepeats => by
        rcases mem_snoc.mp hx with hx | rfl <;> rcases mem_snoc.mp hy with hy | rfl
        · exact h.records.same x hx y hy hrepeats
        · exact hsame x hx hrepeats
        · exact (hsame y hy ⟨hrepeats.2.2 ▸ hrepeats.1, hrepeats.2.1.symm, hrepeats.2.2.symm⟩).symm
        · rfl
      own := fun x hx hkey hwebhook c hc hid => by
        rcases mem_snoc.mp hx with hx | rfl <;> rcases hcreated c hc with hc | ⟨rfl, hnames⟩
        · exact h.records.own x hx hkey hwebhook c hc hid
        · exact absurd ((Server.Names.ticket hx).of_eq hid.symm) hnames
        · rcases hcase with ⟨-, -, hown⟩ | ⟨-, hnames⟩
          · exact hown hkey hwebhook c hc hid
          · exact absurd ((Server.Names.created hc).of_eq hid) hnames
        · rfl
      remembered := fun m hm => by
        obtain ⟨hookId, key, hkey, hcache, hmem⟩ := h.records.remembered m hm
        exact ⟨hookId, key, hkey, hcache, List.mem_append_left _ hmem⟩
      answers := fun x hx => List.mem_append_left _ (h.records.answers x hx)
      requests := fun q' hq' => by
        rcases List.mem_append.mp hq' with hq' | hq'
        · exact List.mem_append_left _ (h.records.requests q' hq')
        · exact List.mem_append_right _ (List.mem_singleton.mp hq' ▸ List.mem_singleton_self _)
      free := fun q' hq' hexec => by
        rcases mem_snoc.mp hq' with hq' | rfl
        · exact (h.records.free q' hq' hexec).mono (.refl _) (.refl _)
        · exact ⟨fun c hc hid => hfree hexec ((Server.Names.claim (s := s) hc).of_eq hid),
            fun a ha hid => hfree hexec ((Server.Names.start (s := s) ha).of_eq hid)⟩
      pending := by
        refine List.pairwise_append.mpr ⟨h.records.pending, List.pairwise_singleton _ _, ?_⟩
        intro q₁ hq₁ q₂ hq₂ _ hexec hid
        obtain rfl := List.mem_singleton.mp hq₂
        exact hfree hexec ((Server.Names.ticket (h.records.requests q₁ hq₁)).of_eq hid) }

theorem Inv.runId_eq (h : Inv s) {db : Database}
    (hrows : ∀ k r, db.tasks.find k = some r → ∃ r₀, s.world.store.db.tasks.find k = some r₀ ∧
      Follows r₀ r) {x : Row} (hx : x ∈ db.tasks.rows) {y : Ticket} (hy : y ∈ s.tickets)
    (hkey : y.key ≠ []) (hxk : x.idempotencyKey = y.key)
    (hstored : (db.tasks.find y.runId).isSome) : y.runId = x.taskId := by
  obtain ⟨z, hz⟩ := Option.isSome_iff_exists.mp hstored
  obtain ⟨z₀, hz₀, hfollows⟩ := hrows _ z hz
  have hzk : z.idempotencyKey = y.key :=
    hfollows.key.trans ((h.rows _ z₀ hz₀).2.ticket y hy rfl hkey)
  obtain ⟨hmem, hid⟩ := Table.mem_of_find hz
  rw [← hid, Table.eq_of_idempotencyKey hmem hx (hzk ▸ hkey) (hzk.trans hxk.symm)]

/-- **The first half of a request.** -/
theorem Inv.submit (h : Inv s) {t : Task} {plan : Plan} (hid : t.taskId = [])
    (howner : plan.executes = true → plan.endpoint = .runs → t.ownerAgent ≠ [])
    (hok : s.MeetsOnce t.idempotencyKey plan clock) :
    Inv (s.submit t.idempotencyKey t plan clock) := by
  have hreap := Store.Cached.tame_reapExpired h.cached (clock 2)
  -- a ticket with the key has its task still stored, under the key
  have hfound {x : Row} {y : Ticket}
      (hx : x ∈ (s.world.store.reapExpired (clock 2)).2.db.tasks.rows)
      (hxk : x.idempotencyKey = t.idempotencyKey) (hy : y ∈ s.tickets) (hkey : y.key ≠ [])
      (hendpoint : y.endpoint = plan.endpoint) (hyk : y.key = t.idempotencyKey) :
      y.runId = x.taskId :=
    h.runId_eq hreap.row hx hy hkey (hxk.trans hyk.symm) ((hok (hyk ▸ hkey)).1 y hy hendpoint hyk)
  unfold Server.submit
  rcases Store.Cached.submit_spec h.cached hid clock with ⟨hkey, hflag, htame, x, hx, hrun⟩ |
    ⟨hnone, hflag, hrun, hseq, hsees, row, hrk, hro, hwrites⟩
  · obtain ⟨hexec, hown⟩ := (hok hkey).2 x hx
    have hmem := List.mem_of_find?_eq_some hx
    have hxk : x.idempotencyKey = t.idempotencyKey := of_decide_eq_true (List.find?_some hx :)
    obtain ⟨x₀, hx₀, hx₀x⟩ := hreap.row _ x (Table.find_of_mem hmem)
    have hset := h.tame (w := { s.world with store := (s.world.store.submit t clock).2 }) htame
    refine hset.accept ?_ (fun y hy hrepeats => ?_) (.inl ⟨hflag, hexec, fun _ hne c hc hck => ?_⟩)
      fun r hr => ⟨fun _ => ?_, fun hyes => ?_⟩
    · rw [Request.runId, hrun]
      exact (h.rows _ x₀ hx₀).1.mono htame.idSeq
    · rw [Request.runId, hrun]
      exact hfound hmem hxk hy hrepeats.1 hrepeats.2.1 hrepeats.2.2
    · exact hown hne c hc (hck.trans hrun)
    · rw [Request.runId, hrun] at hr
      obtain ⟨r₀, hr₀, hfollows⟩ := htame.row _ r hr
      obtain rfl := Option.some.inj (hx₀.symm.trans hr₀)
      exact hfollows.key.trans (hx₀x.key.symm.trans hxk)
    · rw [hexec] at hyes
      exact Bool.noConfusion hyes
  · have hnames : ¬ s.Names (s.world.store.submit t clock).1.taskId := fun hnamed => by
      rw [hrun] at hnamed
      exact Store.not_issued_next _ _ (h.issued _ hnamed)
    have hissued : (s.world.store.submit t clock).2.Issued
        (s.world.store.submit t clock).1.taskId := ⟨_, _, hrun, hseq.ge⟩
    have hset := h.writes (w := { s.world with store := (s.world.store.submit t clock).2 }) hwrites
      hissued (h.rowOk_new hnames _ row)
    refine hset.accept hissued (fun y hy hrepeats => ?_) (.inr ⟨hflag, fun hnamed => hnames
      (hnamed.mono (.refl _) (.refl _) (.refl _) (.refl _))⟩) fun r hr => ?_
    · have hyk : y.key = t.idempotencyKey := hrepeats.2.2
      have hkey : t.idempotencyKey ≠ [] := hyk ▸ hrepeats.1
      obtain ⟨z, hz⟩ := Option.isSome_iff_exists.mp
        ((hok hkey).1 y hy hrepeats.2.1 hyk)
      obtain ⟨z₀, hz₀, hfollows⟩ := hreap.row _ z hz
      have hzk : z.idempotencyKey = t.idempotencyKey :=
        hfollows.key.trans (((h.rows _ z₀ hz₀).2.ticket y hy rfl hrepeats.1).trans hyk)
      have hfoundz := Store.findByIdempotencyKey_of_mem (Table.mem_of_find hz).1 (hzk ▸ hkey)
      rw [hzk, hnone hkey] at hfoundz
      exact absurd hfoundz nofun
    · obtain ⟨-, rfl⟩ := (hwrites.row _ r hr).resolve_right fun hne => hne.1 rfl
      exact ⟨fun _ => hrk, fun hexec => ⟨hsees, fun hruns => hro ▸ howner hexec hruns⟩⟩

theorem prepare_ok {b : RunBody} {d : Api.Daemon} {t : Task} {plan : Plan}
    (h : b.prepare d = .ok (t, plan)) : t.taskId = [] ∧ t.idempotencyKey = b.idempotencyKey ∧
      (plan.executes = true → t.ownerAgent ≠ []) := by
  unfold RunBody.prepare at h
  split_ifs at h
  obtain ⟨spec₀, -, h⟩ := Api.bind_eq_ok h
  obtain ⟨spec₁, -, h⟩ := Api.bind_eq_ok h
  obtain ⟨spec, -, h⟩ := Api.bind_eq_ok h
  obtain ⟨sandbox, -, h⟩ := Api.bind_eq_ok h
  obtain ⟨priority, -, h⟩ := Api.bind_eq_ok h
  obtain ⟨maxRetries, -, h⟩ := Api.bind_eq_ok h
  obtain ⟨rfl, rfl⟩ := Prod.mk.inj (Except.ok.inj h)
  refine ⟨rfl, rfl, fun hexec => ?_⟩
  have howner : (b.task (.run b.request spec sandbox) priority maxRetries).ownerAgent =
      "api" := if_pos hexec
  rw [howner]
  decide

theorem Inv.run (h : Inv s) {d : Api.Daemon} {b : RunBody} (hok : Regular (.run d b clock) s) :
    Inv (s.run d b clock) := by
  unfold Server.run
  cases hp : b.prepare d with
  | error e => exact h
  | ok r =>
    obtain ⟨t, plan⟩ := r
    obtain ⟨hid, hkey, howner⟩ := prepare_ok hp
    unfold Regular at hok
    dsimp only at hok ⊢
    rw [hp] at hok
    dsimp only at hok
    rw [← hkey] at hok ⊢
    exact h.submit hid (fun hexec _ => howner hexec) hok

theorem cacheKey_injective {hookId hookId' : HookId} {key key' : Str}
    (h : cacheKey hookId key = cacheKey hookId' key') : hookId = hookId' ∧ key = key' := by
  have hsplit := congrArg (splitOnce ':') h
  unfold cacheKey at hsplit
  rw [splitOnce_append hookId.noColon, splitOnce_append hookId'.noColon, Prod.mk.injEq] at hsplit
  obtain ⟨htext, hkey⟩ := hsplit
  cases hookId
  cases hookId'
  exact ⟨by simpa using htext, hkey⟩

theorem Records.of_remembered (h : Records s) (i : Invocation) (now : ℤ) :
    (∀ m ∈ (s.remembered i now).2, m ∈ s.idempotency) ∧
      ((s.remembered i now).1 ≠ [] →
        ⟨.webhook i.hookId, i.key, (s.remembered i now).1⟩ ∈ s.tickets) := by
  unfold Server.remembered
  split_ifs with hkey
  · exact ⟨fun m hm => hm, fun hne => absurd rfl hne⟩
  · unfold idempotentRunId
    cases hl : s.idempotency.lookup (cacheKey i.hookId i.key) with
    | none => exact ⟨fun m hm => hm, fun hne => absurd rfl hne⟩
    | some p =>
      obtain ⟨runId, ts⟩ := p
      dsimp only
      split_ifs
      · exact ⟨fun m hm => (List.mem_filter.mp hm).1, fun hne => absurd rfl hne⟩
      · refine ⟨fun m hm => hm, fun _ => ?_⟩
        obtain ⟨hookId, key, -, hcache, hmem⟩ := h.remembered _ (mem_of_lookup hl)
        obtain ⟨hhook, hkeys⟩ := cacheKey_injective hcache
        rw [hhook, hkeys]
        exact hmem

theorem Inv.invoke (h : Inv s) {d : Api.Daemon} {i : Invocation} {now : ℤ}
    (hok : Regular (.invoke d i now clock) s) : Inv (s.invoke d i now clock) := by
  unfold Server.invoke
  unfold Regular at hok
  dsimp only at hok
  cases hc : i.check with
  | error e => exact h
  | ok p =>
    obtain ⟨webhook, payload⟩ := p
    rw [hc] at hok
    obtain ⟨hkept, hrun⟩ := h.records.of_remembered i now
    have hset := h.setIdempotency fun m hm => h.records.remembered m (hkept m hm)
    dsimp only at hok ⊢
    by_cases hne : (s.remembered i now).1 ≠ []
    · rw [if_pos hne]
      exact (hset.again (hrun hne)).answered (List.mem_append_right _ (List.mem_singleton_self _))
    · rw [if_neg hne]
      exact hset.submit rfl (fun _ hruns => nomatch hruns) (hok (not_not.mp hne))

/-! ### The executor -/

theorem candidate_spec {db : Database} {r : Row} (h : db.candidate "*" = some r) :
    db.tasks.find r.taskId = some r ∧ r.status = .pending ∧ r.ownerAgent = [] := by
  obtain ⟨hr, hclaimable, -⟩ := Database.candidate_spec h
  simp only [claimable, Bool.and_eq_true, decide_eq_true_eq] at hclaimable
  exact ⟨Table.find_of_mem hr, hclaimable.1.1.1.2, hclaimable.1.1.2⟩

theorem Inv.claimed (h : Inv s) {r r' : Row} {w : World}
    (hr : s.world.store.db.tasks.find r.taskId = some r) (hpending : r.status = .pending)
    (howner : r.ownerAgent = []) (hw : Store.Writes r.taskId r' s.world.store w.store)
    (hkey : r'.idempotencyKey = r.idempotencyKey) (hretry : r'.retryCount = r.retryCount)
    (hrunning : r'.status = .running)
    (hrequests : ∀ q ∈ s.requests, q.plan.executes = true → q.runId ≠ r.taskId)
    {new : List Attempt} (hnew : (new.map Attempt.key).Sublist [(r.taskId, r.retryCount)]) :
    Inv { s with
      world := w
      claims := s.claims ++ [(r.taskId, r.retryCount)]
      workers := s.workers ++ new } := by
  obtain ⟨hissued, hok⟩ := h.rows _ r hr
  have hfresh : (r.taskId, r.retryCount) ∉ s.claims := fun hmem => by
    rcases hok.claim _ hmem rfl with hlt | ⟨-, hne⟩
    · exact absurd hlt (lt_irrefl _)
    · exact hne hpending
  have hclaims {c : Str × ℤ} (hc : c ∈ s.claims ++ [(r.taskId, r.retryCount)]) :
      c ∈ s.claims ∨ c = (r.taskId, r.retryCount) :=
    (List.mem_append.mp hc).imp_right List.mem_singleton.mp
  refine ⟨hw.cached, fun k hk => ?_, fun k r'' hr'' => ?_, ?_⟩
  · cases hk with
    | ticket hx => exact (h.issued _ (.ticket hx)).mono hw.idSeq
    | created hc => exact (h.issued _ (.created hc)).mono hw.idSeq
    | start ha => exact (h.issued _ (.start ha)).mono hw.idSeq
    | claim hc =>
      rcases hclaims hc with hc | rfl
      · exact (h.issued _ (.claim hc)).mono hw.idSeq
      · exact hissued.mono hw.idSeq
  · rcases hw.row k r'' hr'' with ⟨rfl, rfl⟩ | ⟨hk, r₀, hr₀, hfollows⟩
    · refine ⟨hissued.mono hw.idSeq, ⟨fun x hx hid hne => ?_, fun c hc hid => ?_,
        fun a ha _ _ hp => ?_, fun q hq hexec hid => ?_⟩⟩
      · exact hkey.trans (hok.ticket x hx hid hne)
      · rw [hretry]
        rcases hclaims hc with hc | rfl
        · rcases hok.claim c hc hid with hlt | ⟨-, hne⟩
          · exact .inl hlt
          · exact absurd hpending hne
        · exact .inr ⟨rfl, by rw [hrunning]; decide⟩
      · exact absurd (hrunning.symm.trans hp) (by decide)
      · exact absurd hid (hrequests q hq hexec)
    · obtain ⟨hissued₀, hok₀⟩ := h.rows k r₀ hr₀
      refine ⟨hissued₀.mono hw.idSeq, hok₀.follows hfollows (fun _ hx _ => hx) (fun c hc hid => ?_)
        (fun _ ha _ => ha) (fun _ hq _ => hq) (hw.sees k r'' hr'' hk)⟩
      rcases hclaims hc with hc | rfl
      · exact hc
      · exact absurd hid.symm hk
  · exact {
      h.records with
      claims := by
        refine List.nodup_append.mpr ⟨h.records.claims, List.nodup_singleton _, ?_⟩
        rintro c hc c' hc' rfl
        exact hfresh (List.mem_singleton.mp hc' ▸ hc)
      workers := by
        rw [List.map_append]
        exact h.records.workers.append hnew
      waiting := fun x hx hwaiting hmem => by
        rcases List.mem_append.mp hx with hx | hx
        · exact h.records.waiting x hx hwaiting hmem
        · have hclaim : x.key ∈ s.claims := h.records.attempts _ hmem x.attempt rfl
          have hkey := List.mem_singleton.mp (hnew.subset (List.mem_map_of_mem hx))
          exact hfresh (hkey ▸ hclaim)
      attempts := fun a ha n hn => List.mem_append_left _ (h.records.attempts a ha n hn)
      apart := fun a ha hstarter c hc hid => by
        rcases hclaims hc with hc | rfl
        · exact h.records.apart a ha hstarter c hc hid
        · exact hok.start a ha hstarter hid.symm hpending howner
      free := fun q hq hexec => by
        refine ⟨fun c hc => ?_, (h.records.free q hq hexec).starts⟩
        rcases hclaims hc with hc | rfl
        · exact (h.records.free q hq hexec).claims c hc
        · exact (hrequests q hq hexec).symm }

/-- **A poll.** -/
theorem Inv.poll (h : Inv s) {token : Str} (hok : Regular (.poll token clock) s) :
    Inv (s.poll token clock) := by
  unfold Server.poll
  dsimp only
  rcases World.poll_spec h.cached token clock with ⟨htame, hnone, hunowned⟩ |
    ⟨hpending, r, r', hc, hkey, hretry, hrunning, howned, hfind, hw, htask⟩
  · have hclaim : Server.claimOf s.world (s.world.poll token clock).2 = [] := by
      unfold Server.claimOf
      cases hc : s.world.store.db.candidate "*" with
      | none => rfl
      | some r =>
        refine if_neg fun hboth => ?_
        obtain ⟨hpending, howned⟩ := Bool.and_eq_true_iff.mp hboth
        obtain ⟨r', hr', howner⟩ := (Option.any_eq_true _ _).mp howned
        have hnil := hunowned r r' hpending hc hr'
        rw [of_decide_eq_true howner] at hnil
        exact absurd hnil (by decide)
    rw [hclaim, hnone]
    simp only [Option.toList_none, List.map_nil, List.append_nil]
    exact h.tame htame
  · have hclaim : Server.claimOf s.world (s.world.poll token clock).2 =
        [(r.taskId, r.retryCount)] := by
      unfold Server.claimOf
      rw [hc]
      dsimp only
      rw [hpending, hfind]
      exact if_pos (decide_eq_true howned)
    obtain ⟨hr, hstatus, howner⟩ := candidate_spec hc
    rw [hclaim]
    refine h.claimed hr hstatus howner hw hkey hretry hrunning (hok r hc) ?_
    cases ht : (s.world.poll token clock).1 with
    | none => exact List.nil_sublist _
    | some t =>
      obtain ⟨hid, hattempt⟩ := htask t ht
      have hpair : (t.taskId, t.retryCount) = (r.taskId, r.retryCount) := Prod.ext hid hattempt
      exact hpair ▸ List.Sublist.refl _

/-- The entries of a list but one keep their keys apart from its key when it is set. -/
theorem mem_set_of_nodup {α κ : Type} {f : α → κ} {l : List α} (hl : (l.map f).Nodup) {n : ℕ}
    {p x e : α} (hp : l[n]? = some p) (he : e ∈ l.set n x) : e = x ∨ e ∈ l ∧ f e ≠ f p := by
  obtain ⟨m, hm⟩ := List.mem_iff_getElem?.mp he
  rw [List.getElem?_set] at hm
  split_ifs at hm with hn
  · exact .inl (Option.some.inj hm).symm
  · refine .inr ⟨List.mem_of_getElem? hm, fun heq => hn ?_⟩
    have hlt : n < (l.map f).length := by
      rw [List.length_map]
      exact (List.getElem?_eq_some_iff.mp hp).1
    refine (List.getElem?_inj hlt hl).mp ?_
    rw [List.getElem?_map, List.getElem?_map, hp, hm, Option.map_some, Option.map_some, heq]

theorem Inv.turned (h : Inv s) {n : ℕ} {x : Attempt} (hx : s.workers[n]? = some x) {x' : Worker}
    (hid : x'.taskId = x.worker.taskId) (hwaiting : x'.waiting = true → x.worker.waiting = true)
    {new : List Start} (hnew : new = [] ∨ new = [⟨x.worker.taskId, .executor x.attempt⟩] ∧
      x.worker.waiting = true ∧ x'.waiting = false) :
    Inv { s with
      workers := s.workers.set n { x with worker := x' }
      starts := s.starts ++ new } := by
  have hmem := List.mem_of_getElem? hx
  have hclaim : x.key ∈ s.claims := h.records.workers.subset (List.mem_map_of_mem hmem)
  have hkeys : (s.workers.map Attempt.key).Nodup := h.records.claims.sublist h.records.workers
  have hstarts {a : Start} (ha : a ∈ s.starts ++ new) : a ∈ s.starts ∨
      a = ⟨x.worker.taskId, .executor x.attempt⟩ ∧ x.worker.waiting = true ∧
        x'.waiting = false := by
    rcases List.mem_append.mp ha with ha | ha
    · exact .inl ha
    · rcases hnew with rfl | ⟨rfl, hboth⟩
      · exact absurd ha List.not_mem_nil
      · exact .inr ⟨List.mem_singleton.mp ha, hboth⟩
  refine ⟨h.cached, fun k hk => ?_, fun k r hr => ?_, ?_⟩
  · cases hk with
    | ticket hx => exact h.issued _ (.ticket hx)
    | created hc => exact h.issued _ (.created hc)
    | claim hc => exact h.issued _ (.claim hc)
    | start ha =>
      rcases hstarts ha with ha | ⟨rfl, -⟩
      · exact h.issued _ (.start ha)
      · exact h.issued _ (.claim hclaim)
  · obtain ⟨hissued, hok⟩ := h.rows k r hr
    refine ⟨hissued, hok.ticket, hok.claim, fun a ha hstarter hk => ?_, hok.request⟩
    rcases hstarts ha with ha | ⟨rfl, -⟩
    · exact hok.start a ha hstarter hk
    · exact Starter.noConfusion hstarter
  · exact {
      h.records with
      workers := by
        have hmap : (s.workers.set n { x with worker := x' }).map Attempt.key =
            s.workers.map Attempt.key := by
          obtain ⟨hn, hget⟩ := List.getElem?_eq_some_iff.mp hx
          have hlen : n < (s.workers.map Attempt.key).length := by rwa [List.length_map]
          have hkey : Attempt.key { x with worker := x' } = (s.workers.map Attempt.key)[n] := by
            rw [List.getElem_map, hget]
            exact Prod.ext hid rfl
          rw [List.map_set, hkey, List.set_getElem_self]
        exact hmap ▸ h.records.workers
      waiting := fun y hy hyes ha => by
        rcases mem_set_of_nodup hkeys hx hy with rfl | ⟨hy, hne⟩ <;>
          rcases hstarts ha with ha | ⟨heq, -, hno⟩
        · rw [hid] at ha
          exact h.records.waiting x hmem (hwaiting hyes) ha
        · rw [hno] at hyes
          exact Bool.noConfusion hyes
        · exact h.records.waiting y hy hyes ha
        · obtain ⟨htask, hstarter⟩ := Start.mk.inj heq
          exact hne (Prod.ext htask (Starter.executor.inj hstarter))
      attempts := fun a ha m hm => by
        rcases hstarts ha with ha | ⟨rfl, -⟩
        · exact h.records.attempts a ha m hm
        · exact Starter.executor.inj hm ▸ hclaim
      apart := fun a ha hstarter => by
        rcases hstarts ha with ha | ⟨rfl, -⟩
        · exact h.records.apart a ha hstarter
        · exact Starter.noConfusion hstarter
      free := fun q hq hexec => by
        refine ⟨(h.records.free q hq hexec).claims, fun a ha => ?_⟩
        rcases hstarts ha with ha | ⟨rfl, -⟩
        · exact (h.records.free q hq hexec).starts a ha
        · exact (h.records.free q hq hexec).claims _ hclaim
      once := by
        rcases hnew with rfl | ⟨rfl, hwaits, -⟩
        · rw [List.append_nil]
          exact h.records.once
        refine List.pairwise_append.mpr ⟨h.records.once, List.pairwise_singleton _ _, ?_⟩
        intro a ha b hb htask
        obtain rfl := List.mem_singleton.mp hb
        obtain ⟨task, starter⟩ := a
        obtain rfl : task = x.worker.taskId := htask
        cases starter with
        | request => exact absurd rfl (h.records.apart _ ha rfl _ hclaim)
        | executor m =>
          rintro rfl
          exact h.records.waiting x hmem hwaits ha }

/-- **A turn of a worker.** -/
theorem Inv.resume (h : Inv s) (n : ℕ) (a : Answer) : Inv (s.resume n a) := by
  unfold Server.resume
  cases hx : s.workers[n]? with
  | none => exact h
  | some x =>
    have hclaim : x.key ∈ s.claims :=
      h.records.workers.subset (List.mem_map_of_mem (List.mem_of_getElem? hx))
    have hworld : Inv { s with world := (x.worker.resume a s.world).2.2.2 } := by
      rcases x.worker.resume_spec h.cached a with htame | ⟨r, r', hr, hkey, hretry, hw⟩
      · exact h.tame htame
      · obtain ⟨hissued, hok⟩ := h.rows _ r hr
        refine h.writes hw (hissued.mono hw.idSeq) ⟨fun y hy hid hne => ?_, fun c hc hid => ?_,
          fun b hb hstarter hid => ?_, fun q hq hexec hid => ?_⟩
        · exact hkey.trans (hok.ticket y hy hid hne)
        · rw [hretry]
          rcases hok.claim c hc hid with hlt | ⟨heq, -⟩
          · exact .inl (by omega)
          · exact .inl (by omega)
        · exact absurd hid.symm (h.records.apart b hb hstarter _ hclaim)
        · exact absurd hid.symm ((h.records.free q hq hexec).claims _ hclaim)
    refine hworld.turned hx (x.worker.resume_taskId a s.world) x.worker.waiting_of_resume ?_
    by_cases hstarts :
        (x.worker.resume a s.world).2.1 = [] ∧ (x.worker.resume a s.world).2.2.1 = []
    · exact .inl (if_pos (by simp [hstarts.1, hstarts.2]))
    · refine .inr ⟨if_neg fun hempty => hstarts ?_, x.worker.waiting_of_starts hstarts⟩
      obtain ⟨hagents, hexecutions⟩ := Bool.and_eq_true_iff.mp hempty
      exact ⟨List.isEmpty_iff.mp hagents, List.isEmpty_iff.mp hexecutions⟩

/-- **A step.** -/
theorem Inv.step (h : Inv s) {i : Input} (hok : Regular i s) : Inv (s.step i).2 := by
  cases i with
  | run d b clock => exact h.run hok
  | invoke d i now clock => exact h.invoke hok
  | finish n d delegation a => exact h.finish n d delegation a
  | poll token clock => exact h.poll hok
  | resume n a => exact h.resume n a
  | write taskId write clock =>
    refine h.tame (w := s.world.call (write.op taskId) clock) ?_
    cases write with
    | status st hne lastResult lastError =>
      exact Store.Cached.tame_updateStatus h.cached taskId hne lastResult lastError clock
    | artifacts ids => exact Store.Cached.tame_addArtifacts h.cached taskId ids clock
    | evidence ref => exact Store.Cached.tame_setEvidence h.cached taskId ref clock

/-! ### Every run -/

def reached (lazyLoad : Bool) (ttl : ℤ) (inputs : List Input) : Server :=
  (Machine.run Server.step inputs (Server.opened lazyLoad ttl)).2

/-- **One execution for one key.** In a run in which every step is regular, the law holds in every
state. -/
theorem once_of_regular (lazyLoad : Bool) (ttl : ℤ) (inputs : List Input)
    (hok : Along Server.step Regular inputs (Server.opened lazyLoad ttl)) (n : ℕ) :
    Lawful (reached lazyLoad ttl (inputs.take n)) := by
  have hprefix : Along Server.step Regular (inputs.take n) (Server.opened lazyLoad ttl) := by
    rw [← List.take_append_drop n inputs, along_append] at hok
    exact hok.1
  have hinv : Inv (Machine.run Server.step (inputs.take n) (Server.opened lazyLoad ttl)).2 :=
    run_invariant (I := Inv) (fun _ _ hs hi => hs.step hi) _ (inv_opened lazyLoad ttl) hprefix
  exact hinv.records.lawful

def bareDaemon : Api.Daemon := ⟨true, [], 0, fun _ => none, fun _ => false, fun _ => []⟩

def answerAt (now : ℤ) : Answer := { signal := .go, now, clock := fun _ _ => now }

def graphBody : RunBody :=
  { request := { goal := "go", graphId := "g" }, idempotencyKey := "k" }

def agentBody : RunBody :=
  { request := { goal := "go", agentId := "a" }, idempotencyKey := "k" }

/-- An invocation of a webhook with a graph, under a key. -/
def hookInvocation : Invocation :=
  { hookId := ⟨"wh-1", by decide⟩
    webhook := some { name := "w", graphId := "g" }
    key := "w" }

/-- A run of a graph is repeated by one of an agent, a webhook is invoked twice, and the executor
runs an agent. -/
def orderly : List Input := [.run bareDaemon graphBody fun _ => 1,
  .finish 0 bareDaemon none (answerAt 2), .run bareDaemon agentBody fun _ => 3,
  .finish 0 bareDaemon none (answerAt 4), .invoke bareDaemon hookInvocation 5 fun _ => 5,
  .finish 0 bareDaemon none (answerAt 6), .invoke bareDaemon hookInvocation 7 fun _ => 7,
  .run bareDaemon { agentBody with idempotencyKey := [] } fun _ => 8,
  .poll "t" fun _ => 9, .resume 0 (answerAt 10), .resume 0 (answerAt 11)]

theorem orderly_lawful : (reached true 0 orderly).starts.length = 3 ∧
    (reached true 0 orderly).answers.length = 4 ∧ Lawful (reached true 0 (orderly.take 11)) :=
  ⟨by decide, by decide, once_of_regular true 0 orderly (by decide) 11⟩

/-- A repeated run of a graph starts the graph again. -/
theorem executed_twice :
    ¬ ∀ (lazyLoad : Bool) (ttl : ℤ) (inputs : List Input) (n : ℕ),
      Lawful (reached lazyLoad ttl (inputs.take n)) := by
  intro hall
  let inputs : List Input := [.run bareDaemon graphBody fun _ => 1,
    .finish 0 bareDaemon none (answerAt 2), .run bareDaemon graphBody fun _ => 3,
    .finish 0 bareDaemon none (answerAt 4)]
  have honce := (hall true 0 inputs 4).once
  have hstarts : (reached true 0 inputs).starts =
      [⟨Store.newId 1 1, .request⟩, ⟨Store.newId 1 1, .request⟩] := by decide
  have hticket : (⟨.runs, "k", Store.newId 1 1⟩ : Ticket) ∈
      (reached true 0 inputs).tickets := by decide
  have hpair := (List.pairwise_cons.mp (hstarts ▸ honce)).1 _ List.mem_cons_self
  exact hpair _ hticket _ hticket ⟨by decide, rfl, rfl⟩ rfl rfl

end AgentStudio.Requests
