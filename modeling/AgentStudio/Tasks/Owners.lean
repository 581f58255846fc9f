import AgentStudio.Tasks.Holding

/-!
# Who has a task

What the operations of the store leave of a row that decides who may claim it: its key, its owner,
its retries, and whether it is pending. A row `Follows` an earlier one if it differs only in the
rest and is not pending again, and a store is `Tame` over an earlier one if all its rows follow rows
of that one, so no task is new or claimable again. The writes of a run are tame
(`Cached.tame_updateStatus`, `Cached.tame_addArtifacts`, `Cached.tame_setEvidence`), and so are
reading and reaping.

`Cached.submit_spec` says what else a submitted task does, and `Cached.requeue_spec` what a retry
does. A new id has the number of the task in it, so `newId_injective` keeps the ids of new tasks
apart.
-/

namespace AgentStudio.Tasks

open PyText PyDict PyJson

/-- A row that was written again: with its key, its owner and its retries, and pending only if it
was. -/
structure Follows (r r' : Row) : Prop where
  key : r'.idempotencyKey = r.idempotencyKey
  owner : r'.ownerAgent = r.ownerAgent
  retryCount : r'.retryCount = r.retryCount
  pending : r'.status = .pending → r.status = .pending

theorem Follows.refl (r : Row) : Follows r r := ⟨rfl, rfl, rfl, id⟩

theorem Follows.trans {r r' r'' : Row} (h : Follows r r') (h' : Follows r' r'') : Follows r r'' :=
  ⟨h'.key.trans h.key, h'.owner.trans h.owner, h'.retryCount.trans h.retryCount,
    h.pending ∘ h'.pending⟩

theorem Follows.not_claimable {r r' : Row} (h : Follows r r')
    (hr : r.status = .pending → r.ownerAgent ≠ []) : r'.status = .pending → r'.ownerAgent ≠ [] :=
  fun hpending => h.owner ▸ hr (h.pending hpending)

namespace Store

/-- The rows of a store follow rows of an earlier one, and what that one has seen is seen. -/
structure Tame (s s' : Store) : Prop where
  cached : s'.Cached
  idSeq : s.db.idSeq ≤ s'.db.idSeq
  row : ∀ k r', s'.db.tasks.find k = some r' → ∃ r, s.db.tasks.find k = some r ∧ Follows r r'
  sees : ∀ k r', s'.db.tasks.find k = some r' → s.sees k = true → s'.sees k = true

variable {s s' s'' : Store}

theorem Tame.refl (h : s.Cached) : Tame s s :=
  ⟨h, le_rfl, fun _ r hr => ⟨r, hr, .refl r⟩, fun _ _ _ hs => hs⟩

theorem Tame.trans (h : Tame s s') (h' : Tame s' s'') : Tame s s'' := by
  refine ⟨h'.cached, h.idSeq.trans h'.idSeq, fun k r'' hr'' => ?_, fun k r'' hr'' hsees => ?_⟩
  · obtain ⟨r', hr', hfollows'⟩ := h'.row k r'' hr''
    obtain ⟨r, hr, hfollows⟩ := h.row k r' hr'
    exact ⟨r, hr, hfollows.trans hfollows'⟩
  · obtain ⟨r', hr', -⟩ := h'.row k r'' hr''
    exact h'.sees k r'' hr'' (h.sees k r' hr' hsees)

theorem Alike.tame (h : Alike s s') : Tame s s' := by
  refine ⟨h.cached, by rw [h.db], fun k r hr => ⟨r, ?_, .refl r⟩, fun k _ _ hsees => ?_⟩
  · rwa [h.db] at hr
  · rwa [h.sees]

/-! ### Reading and writing one task -/

namespace Cached

theorem tame_put (hs : Alike s s') {id : Str} {t t' : Task} {r : Row} (hsees : s.sees id = true)
    (hr : s.db.tasks.find id = some r) (hrt : norm t = fromRow r) (hid : t'.taskId = t.taskId)
    (hrow : Follows r (toRow t')) : Tame s (s'.put id t') := by
  have hkey : t'.idempotencyKey = t.idempotencyKey :=
    hrow.key.trans (congrArg Record.idempotencyKey hrt).symm
  obtain ⟨hcached, hfind, hsees'⟩ :=
    hs.cached.put (hs.db ▸ hr) hrt hid hkey ((hs.sees id).trans hsees)
  have hseq : s'.db.idSeq = s.db.idSeq := congrArg Database.idSeq hs.db
  refine ⟨hcached, hseq.ge, fun k r' hr' => ?_, fun k _ _ hseen => ?_⟩
  · rw [hfind] at hr'
    split_ifs at hr' with hk
    · exact ⟨r, hk ▸ hr, Option.some.inj hr' ▸ hrow⟩
    · rw [hs.db] at hr'
      exact ⟨r', hr', .refl r'⟩
  · rw [hsees', hs.sees]
    exact hseen

private theorem columns {t : Task} {r : Row} (h : norm t = fromRow r) :
    t.idempotencyKey = r.idempotencyKey ∧ t.ownerAgent = r.ownerAgent ∧
      t.retryCount = r.retryCount ∧ t.status = r.status :=
  ⟨congrArg Record.idempotencyKey h, congrArg Record.ownerAgent h, congrArg Record.retryCount h,
    congrArg Record.status h⟩

theorem tame_withTask (h : s.Cached) {α : Type} {id : Str} {missing : α}
    {f : Task → Store → α × Store} {u : Task → Task} (hf : ∀ t s, (f t s).2 = s.put id (u t))
    (hu : ∀ t, (u t).taskId = t.taskId ∧ (u t).idempotencyKey = t.idempotencyKey ∧
      (u t).ownerAgent = t.ownerAgent ∧ (u t).retryCount = t.retryCount ∧
        ((u t).status = .pending → t.status = .pending)) :
    Tame s (s.withTask id missing f).2 := by
  rcases h.withTask_cases id missing f with ⟨-, heq⟩ | ⟨t, r, s', hsees, hr, hrt, hs, heq⟩ <;>
    rw [heq]
  · exact .refl h
  · obtain ⟨hid, hkey, howner, hretry, hpending⟩ := hu t
    obtain ⟨hrk, hro, hrr, hrs⟩ := columns hrt
    rw [hf]
    exact tame_put hs hsees hr hrt hid ⟨hkey.trans hrk, howner.trans hro, hretry.trans hrr,
      fun hp => hrs ▸ hpending hp⟩

theorem tame_getTask (h : s.Cached) (id : Str) : Tame s (s.getTask id).2 := by
  rcases h.getTask_cases id with ⟨-, hg⟩ | ⟨t, r, -, -, -, -, hs⟩
  · rw [hg]
    exact .refl h
  · exact hs.tame

theorem tame_updateStatus (h : s.Cached) (id : Str) {status : Status} (hne : status ≠ .pending)
    (lastResult : Option Dict) (lastError : Str) (clock : ℕ → ℤ) :
    Tame s (s.updateStatus id status lastResult lastError none clock).2 := by
  rcases h.updateStatus_cases id status lastResult lastError none clock with
    ⟨-, heq⟩ | ⟨t, r, s', hsees, hr, hrt, hs, heq⟩ <;> rw [heq]
  · exact .refl h
  · split_ifs
    · obtain ⟨hrk, hro, hrr, -⟩ := columns hrt
      exact tame_put hs hsees hr hrt rfl ⟨hrk, hro, hrr, fun hp => absurd hp hne⟩
    · exact hs.tame

theorem status_of_updateStatus (h : s.Cached) {id : Str} (hsees : s.sees id = true)
    {status : Status} (hvalid : status.valid = true) {lastResult : Option Dict} {lastError : Str}
    {clock : ℕ → ℤ} {r' : Row}
    (hr' : (s.updateStatus id status lastResult lastError none clock).2.db.tasks.find id =
      some r') :
    r'.status = status := by
  rcases h.updateStatus_cases id status lastResult lastError none clock with
    ⟨hunseen, -⟩ | ⟨t, r, s', -, hr, hrt, hs, heq⟩
  · rw [hsees] at hunseen
    exact Bool.noConfusion hunseen
  · rw [heq, if_pos hvalid] at hr'
    have hid : (updated t status lastResult lastError none (clock 0)).taskId = t.taskId := rfl
    obtain ⟨-, hfind, -⟩ :=
      hs.cached.put (hs.db ▸ hr) hrt hid rfl ((hs.sees id).trans hsees)
    have hrow := (hfind id).symm.trans hr'
    rw [if_pos rfl] at hrow
    exact (congrArg Record.status (Option.some.inj hrow)).symm

theorem tame_addArtifacts (h : s.Cached) (id : Str) (artifactIds : List Str) (clock : ℕ → ℤ) :
    Tame s (s.addArtifacts id artifactIds clock).2 :=
  h.tame_withTask (u := fun t => { t with
    artifactIds := artifactIds.foldl
      (fun ids aid => if aid ≠ [] ∧ aid ∉ ids then ids ++ [aid] else ids) t.artifactIds
    updatedAt := clock 0 }) (fun _ _ => rfl) fun _ => ⟨rfl, rfl, rfl, rfl, fun h => h⟩

theorem tame_setEvidence (h : s.Cached) (id evidenceRef : Str) (clock : ℕ → ℤ) :
    Tame s (s.setEvidence id evidenceRef clock).2 :=
  h.tame_withTask (u := fun t => { t with evidenceRef, updatedAt := clock 0 }) (fun _ _ => rfl)
    fun _ => ⟨rfl, rfl, rfl, rfl, fun h => h⟩

theorem tame_reapExpired (h : s.Cached) (now : ℤ) : Tame s (s.reapExpired now).2 := by
  have hfind (k : Str) : (s.reapExpired now).2.db.tasks.find k =
      if k ∈ s.db.expiredIds now then none else s.db.tasks.find k := s.db.find_deleteIds _ k
  refine ⟨h.deleteIds _, le_rfl, fun k r hr => ?_, fun k r hr hsees => ?_⟩ <;>
    rw [hfind] at hr <;> split_ifs at hr with hk
  · exact ⟨r, hr, .refl r⟩
  · refine (s.sees_deleteIds _ k).trans ?_
    simp [hk, hsees]

end Cached

/-! ### Writing a row -/

/-- One row is written, and the others follow rows of the earlier store. -/
structure Writes (id : Str) (row : Row) (s s' : Store) : Prop where
  cached : s'.Cached
  idSeq : s.db.idSeq ≤ s'.db.idSeq
  row : ∀ k r', s'.db.tasks.find k = some r' →
    k = id ∧ r' = row ∨ k ≠ id ∧ ∃ r, s.db.tasks.find k = some r ∧ Follows r r'
  sees : ∀ k r', s'.db.tasks.find k = some r' → k ≠ id → s.sees k = true → s'.sees k = true

theorem Writes.of_find {id : Str} {row : Row} (hcached : s'.Cached)
    (hseq : s.db.idSeq ≤ s'.db.idSeq)
    (hfind : ∀ k, s'.db.tasks.find k = if k = id then some row else s.db.tasks.find k)
    (hsees : ∀ k, k ≠ id → s.sees k = true → s'.sees k = true) : Writes id row s s' := by
  refine ⟨hcached, hseq, fun k r' hr' => ?_, fun k _ _ hne => hsees k hne⟩
  rw [hfind] at hr'
  split_ifs at hr' with hk
  · exact .inl ⟨hk, (Option.some.inj hr').symm⟩
  · exact .inr ⟨hk, r', hr', .refl r'⟩

theorem Tame.writes {id : Str} {row : Row} (h : Tame s s') (h' : Writes id row s' s'') :
    Writes id row s s'' := by
  refine ⟨h'.cached, h.idSeq.trans h'.idSeq, fun k r'' hr'' => ?_, fun k r'' hr'' hk hsees => ?_⟩
  · rcases h'.row k r'' hr'' with hnew | ⟨hk, r', hr', hfollows'⟩
    · exact .inl hnew
    · obtain ⟨r, hr, hfollows⟩ := h.row k r' hr'
      exact .inr ⟨hk, r, hr, hfollows.trans hfollows'⟩
  · rcases h'.row k r'' hr'' with ⟨hid, -⟩ | ⟨-, r', hr', -⟩
    · exact absurd hid hk
    · exact h'.sees k r'' hr'' hk (h.sees k r' hr' hsees)

theorem Cached.requeue_spec (h : s.Cached) (id actor reason : Str) (clock : ℕ → ℤ) :
    Tame s (s.requeue id actor reason clock).2 ∨
      ∃ r r', s.db.tasks.find id = some r ∧ r'.idempotencyKey = r.idempotencyKey ∧
        r'.retryCount = r.retryCount + 1 ∧
        Writes id r' s (s.requeue id actor reason clock).2 := by
  rcases h.requeue_cases id actor reason clock with
    ⟨-, heq⟩ | ⟨t, r, s', hsees, hr, hrt, hs, heq⟩ <;> rw [heq]
  · exact .inl (.refl h)
  · obtain ⟨hrk, -, hrr, -⟩ := Cached.columns hrt
    have hid : (requeued t (clock 0)).taskId = t.taskId := rfl
    obtain ⟨hcached, hfind, hsees'⟩ :=
      hs.cached.put (hs.db ▸ hr) hrt hid rfl ((hs.sees id).trans hsees)
    have hseq : s'.db.idSeq = s.db.idSeq := congrArg Database.idSeq hs.db
    refine .inr ⟨r, toRow (requeued t (clock 0)), hr, hrk, congrArg (· + 1) hrr,
      .of_find (hcached.setDb rfl) hseq.ge (fun k => ?_) fun k _ hseen => ?_⟩
    · exact (hfind k).trans (by rw [hs.db])
    · exact ((hsees' k).trans (hs.sees k)).trans hseen

/-! ### New tasks -/

theorem newId_injective {now now' : ℤ} {n n' : ℕ} (h : newId now n = newId now' n') : n = n' := by
  have hno (m : ℕ) : '_' ∉ Nat.toDigits 10 m := fun hmem =>
    absurd (Nat.isDigit_of_mem_toDigits (by norm_num) (by norm_num) hmem) (by decide)
  unfold newId at h
  rw [List.append_assoc, List.append_assoc] at h
  have hsplit := congrArg (splitOnce '_') (List.append_cancel_left h)
  rw [splitOnce_append (hno _), splitOnce_append (hno _)] at hsplit
  have hdigits := congrArg (fun p : Str × Str => Nat.ofDigitChars 10 p.2 0) hsplit
  simpa only [Nat.ofDigitChars_ten_toDigits] using hdigits

/-- The id is one that new tasks have got so far. -/
def Issued (s : Store) (id : Str) : Prop := ∃ now n, id = newId now n ∧ n ≤ s.db.idSeq

theorem Issued.mono {id : Str} (h : s.Issued id) (hle : s.db.idSeq ≤ s'.db.idSeq) :
    s'.Issued id := by
  obtain ⟨now, n, hid, hn⟩ := h
  exact ⟨now, n, hid, hn.trans hle⟩

theorem not_issued_next (s : Store) (now : ℤ) : ¬ s.Issued (newId now (s.db.idSeq + 1)) := by
  rintro ⟨now', n, hid, hn⟩
  have := newId_injective hid
  omega

theorem findByIdempotencyKey_of_mem {db : Database} {r : Row} (hr : r ∈ db.tasks.rows)
    (hkey : r.idempotencyKey ≠ []) : db.findByIdempotencyKey r.idempotencyKey = some r := by
  unfold Database.findByIdempotencyKey
  cases hf : db.tasks.rows.find? (·.idempotencyKey = r.idempotencyKey) with
  | none => exact absurd (decide_eq_true rfl) (List.find?_eq_none.mp hf r hr)
  | some x =>
    have hx : x.idempotencyKey = r.idempotencyKey := of_decide_eq_true (List.find?_some hf :)
    rw [Table.eq_of_idempotencyKey hr (List.mem_of_find?_eq_some hf) hkey hx.symm]

theorem Cached.insert_spec (h : s.Cached) {t : Task} (hid : t.taskId = [])
    (hfresh : s.db.duplicate t = none) (now : ℤ) :
    let r := s.insert t now
    r.1.taskId = newId now (s.db.idSeq + 1) ∧ r.2.db.lastSubmitDeduped = false ∧
      r.2.db.idSeq = s.db.idSeq + 1 ∧ r.2.sees r.1.taskId = true ∧
      Writes r.1.taskId (toRow (s.placed t now)) s r.2 := by
  intro r
  obtain ⟨hcached, hfind, hsees⟩ := h.insertNew hfresh now
  have hgiven : s.givenId t now = newId now (s.db.idSeq + 1) := if_pos hid
  have hrun : r.1.taskId = s.givenId t now := by
    rw [show r = _ from insert_eq s t now]
    rfl
  have hcounts : r.2.db.lastSubmitDeduped = false ∧ r.2.db.idSeq = s.db.idSeq + 1 := by
    rw [show r = _ from insert_eq s t now, indexTask]
    split_ifs
    · exact ⟨rfl, if_pos hid⟩
    · unfold Database.indexInsert
      split_ifs <;> exact ⟨rfl, if_pos hid⟩
  refine ⟨hrun.trans hgiven, hcounts.1, hcounts.2, ?_, ?_⟩
  · rw [hsees, hrun, decide_eq_true rfl, Bool.true_or]
  · refine .of_find hcached (by rw [hcounts.2]; omega) (fun k => ?_) fun k _ hseen => ?_
    · rw [hfind, hrun]
    · rw [hsees, hseen, Bool.or_true]

/-- **What `submit` does for a task without an id.** It answers with the stored task of the same
key; or the task is written under the next id, and the store sees it. -/
theorem Cached.submit_spec (h : s.Cached) {t : Task} (hid : t.taskId = []) (clock : ℕ → ℤ) :
    (t.idempotencyKey ≠ [] ∧ (s.submit t clock).2.db.lastSubmitDeduped = true ∧
        Tame s (s.submit t clock).2 ∧
        ∃ x, (s.reapExpired (clock 2)).2.db.findByIdempotencyKey t.idempotencyKey = some x ∧
          (s.submit t clock).1.taskId = x.taskId) ∨
      (t.idempotencyKey ≠ [] →
          (s.reapExpired (clock 2)).2.db.findByIdempotencyKey t.idempotencyKey = none) ∧
        (s.submit t clock).2.db.lastSubmitDeduped = false ∧
        (s.submit t clock).1.taskId = newId (clock 3) (s.db.idSeq + 1) ∧
        (s.submit t clock).2.db.idSeq = s.db.idSeq + 1 ∧
        (s.submit t clock).2.sees (s.submit t clock).1.taskId = true ∧
        ∃ row, row.idempotencyKey = t.idempotencyKey ∧ row.ownerAgent = t.ownerAgent ∧
          Writes (s.submit t clock).1.taskId row s (s.submit t clock).2 := by
  have hreap : Tame s (s.reapExpired (clock 2)).2 := h.tame_reapExpired _
  rcases s.submit_cases t clock with ⟨x, hx, hkey, hxk, heq⟩ | ⟨hd, heq⟩
  · have hfound := findByIdempotencyKey_of_mem hx (hxk ▸ hkey)
    have hdb : ({ (s.reapExpired (clock 2)).2.db with lastSubmitDeduped := true } :
      Database).tasks = (s.reapExpired (clock 2)).2.db.tasks := rfl
    obtain ⟨hcached, hsees⟩ := hreap.cached.fill hx hdb
    rw [heq]
    refine .inl ⟨hkey, rfl, hreap.trans ?_, x, hxk ▸ hfound, rfl⟩
    refine ⟨hcached, le_rfl, fun k y hy => ⟨y, hy, .refl y⟩, fun k _ _ hseen => ?_⟩
    rw [hsees, hseen, Bool.or_true]
  · obtain ⟨hrun, hflag, hseq, hsees, hwrites⟩ :=
      hreap.cached.insert_spec (t := prepare t clock) hid hd (clock 3)
    rw [heq]
    refine .inr ⟨fun hkey => ?_, hflag, hrun, hseq, hsees, _, rfl, rfl, hreap.writes hwrites⟩
    have hdup := hd
    rw [Database.duplicate] at hdup
    exact (if_neg hkey).symm.trans hdup

/-! ### Claims -/

/-- **What `dequeue` does.** It finds no candidate; or it claims the candidate, and an eager store
loses it; or it takes the claim back. -/
theorem Cached.dequeue_spec (h : s.Cached) {owner : Str} (howner : owner ≠ []) (team token : Str)
    (clock : ℕ → ℤ) :
    (s.db.candidate (orDefault "default" team) = none ∧
        s.dequeue team owner token clock = (none, s)) ∨
      ∃ r, s.db.candidate (orDefault "default" team) = some r ∧
        (Writes r.taskId (claimed owner token clock r) s (s.dequeue team owner token clock).2 ∧
            (s.dequeue team owner token clock).2.db.tasks.find r.taskId =
              some (claimed owner token clock r) ∧
            (∀ t, (s.dequeue team owner token clock).1 = some t →
              t.taskId = r.taskId ∧ t.retryCount = r.retryCount) ∨
          Tame s (s.dequeue team owner token clock).2 ∧
            (s.dequeue team owner token clock).2.db.tasks.find r.taskId =
              some (reverted owner token clock r) ∧
            (s.dequeue team owner token clock).1 = none) := by
  rcases h.dequeue_cases team owner token clock with ⟨hnone, heq⟩ | ⟨r, -, hc, hcases⟩
  · exact .inl ⟨hnone.resolve_left howner, heq⟩
  refine .inr ⟨r, hc, ?_⟩
  obtain ⟨hr, hpending⟩ := pending_of_candidate hc
  have hfind := find_claim hr hpending owner token clock
  rcases hcases with ⟨hm, heq⟩ | ⟨hm, t, s', hs, htr, ⟨-, heq⟩ | ⟨-, heq⟩⟩ <;> rw [heq]
  · refine .inl ⟨.of_find (h.claim r owner token clock) le_rfl hfind fun k hk hseen => ?_,
      (hfind _).trans (if_pos rfl), fun t ht => nomatch ht⟩
    rw [sees_claim, hseen]
    simp [hk]
  · have hfind' (k : Str) : s'.db.tasks.find k =
        if k = r.taskId then some (claimed owner token clock r) else s.db.tasks.find k := by
      rw [hs.db]
      exact hfind k
    have hseq : s'.db.idSeq = s.db.idSeq :=
      (congrArg Database.idSeq hs.db :)
    refine .inl ⟨.of_find hs.cached hseq.ge hfind' fun k hk hseen => ?_,
      (hfind' _).trans (if_pos rfl), fun u hu => ?_⟩
    · rw [hs.sees, sees_claim, hseen]
      simp [hk]
    · obtain rfl := Option.some.inj hu
      exact ⟨congrArg Record.taskId htr, congrArg Record.retryCount htr⟩
  · have hfind' := find_revert hr hpending hs
    have hseq : s'.db.idSeq = s.db.idSeq :=
      (congrArg Database.idSeq hs.db :)
    refine .inr ⟨⟨hs.cached.revert _ _, hseq.ge, fun k r' hr' => ?_, fun k r' hr' _ => ?_⟩,
      (hfind' _).trans (if_pos rfl), rfl⟩
    · rw [hfind'] at hr'
      split_ifs at hr' with hk
      · -- the row is what it was, but for its times
        have hfree : r.ownerAgent = [] := by
          have hclaimable := (Database.candidate_spec hc).2.1
          simp only [claimable, Bool.and_eq_true, decide_eq_true_eq] at hclaimable
          exact hclaimable.1.1.2
        refine ⟨r, hk ▸ Table.find_of_mem hr, ?_⟩
        rw [← Option.some.inj hr']
        exact ⟨rfl, hfree.symm, rfl, fun _ => hpending⟩
      · exact ⟨r', hr', .refl r'⟩
    · have hlazy : (s'.revert r.taskId (clock 2)).lazyLoad = true := hs.lazyLoad.trans hm
      exact sees_of_lazy hlazy hr'

end Store

end AgentStudio.Tasks
