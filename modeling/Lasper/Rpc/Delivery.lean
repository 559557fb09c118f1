import Lasper.Rpc.Framing

/-! Which caller gets which response. A sender leaves the pending table the
moment a line is routed to it, so no caller is answered twice; and every routed
response whose caller still waits is delivered. -/

namespace Lasper.Rpc

open Lib

variable {parse : String → Option Json}

/-- A line that carries a response reaches the caller pending under its id. -/
theorem routeResponse_response {line : String} {raw : Json} {response : RpcResponse} {caller : Caller}
    {pending : PendingRpcResponses} (hp : parse line = some raw)
    (hr : RpcResponse.fromValue raw = some response) (hc : pending.lookup response.id = some caller) :
    (routeResponse parse line pending).sent = some (caller, response) := by
  have hid := RpcResponse.fromValue_id hr
  have hget : ¬((raw.get "method").isSome = true ∧ (raw.get "id").isNone = true) := by
    rintro ⟨-, hn⟩
    rw [Option.isNone_iff_eq_none.mp hn] at hid
    cases hid
  simp only [routeResponse, hp, if_neg hget, hid, hc, hr]

/-- What routing does to the pending table. -/
theorem routeResponse_cases (parse : String → Option Json) (line : String) (pending : PendingRpcResponses) :
    ((routeResponse parse line pending).pending = pending ∧ (routeResponse parse line pending).sent = none) ∨
    ∃ id caller, pending.lookup id = some caller ∧
      (routeResponse parse line pending).pending = pending.erase id ∧
      ∀ c response, (routeResponse parse line pending).sent = some (c, response) →
        c = caller ∧ response.id = id ∧ ∃ raw, parse line = some raw ∧ RpcResponse.fromValue raw = some response := by
  unfold routeResponse
  cases hp : parse line with
  | none => exact .inl ⟨rfl, rfl⟩
  | some raw =>
    dsimp only
    split_ifs
    · exact .inl ⟨rfl, rfl⟩
    · split
      · exact .inl ⟨rfl, rfl⟩
      · rename_i id hid
        split
        · exact .inl ⟨rfl, rfl⟩
        · rename_i caller hc
          refine .inr ⟨id, caller, hc, ?_⟩
          split
          · exact ⟨rfl, by simp⟩
          · rename_i response hr
            refine ⟨rfl, fun c r he => ?_⟩
            cases he
            have := RpcResponse.fromValue_id hr
            rw [hid] at this
            exact ⟨rfl, (Option.some.inj this).symm, raw, rfl, hr⟩

namespace Exchange

variable {s t : Exchange} {e : Event}

def answered (s : Exchange) : List Caller := s.delivered.map Prod.fst

/-- Responses and the lines they came from. -/
structure Answered (parse : String → Option Json) (s : Exchange) : Prop where
  complete : ∀ entry ∈ s.routed, ∀ response, responseOf parse entry.line = some response →
    ∀ caller, entry.pending.lookup response.id = some caller → caller ∉ entry.closed →
      (caller, response) ∈ s.delivered
  origin : ∀ caller response, (caller, response) ∈ s.delivered →
    (∃ entry ∈ s.routed, responseOf parse entry.line = some response ∧
      entry.pending.lookup response.id = some caller) ∨ ∃ id, response = oversizedResponse id

/-- No sender is left for a caller that has its answer. -/
structure Once (s : Exchange) : Prop where
  nodup : s.answered.Nodup
  accepted : ∀ caller ∈ s.answered, caller ∈ s.accepted
  pending : ∀ id caller, s.pending.lookup id = some caller → caller ∈ s.accepted ∧ caller ∉ s.answered
  injective : ∀ id id' caller, s.pending.lookup id = some caller → s.pending.lookup id' = some caller → id = id'
  writing : ∀ id caller, s.phase = .writing id caller →
    caller ∈ s.accepted ∧ caller ∉ s.answered ∧ ∀ id', s.pending.lookup id' ≠ some caller

/-! ### Steps -/

theorem Answered.of_eq (h : Answered parse s) (hr : t.routed = s.routed) (hd : t.delivered = s.delivered) :
    Answered parse t := by
  obtain ⟨hc, ho⟩ := h
  rw [← hr, ← hd] at ho hc
  exact ⟨hc, ho⟩

theorem Answered.send_oversized (h : Answered parse s) (caller : Caller) (id : ℕ) :
    Answered parse (s.send caller (oversizedResponse id)) := by
  unfold send
  split_ifs
  · exact h
  · refine ⟨fun entry he r hr c hc hn => List.mem_append_left _ (h.complete entry he r hr c hc hn), ?_⟩
    intro c r hm
    rcases List.mem_append.mp hm with hm | hm
    · exact h.origin c r hm
    · cases List.mem_singleton.mp hm
      exact .inr ⟨id, rfl⟩

/-- The bytes of a line that is routed, as text. -/
theorem responseOf_eq (parse : String → Option Json) {bytes : List UInt8} {line : String}
    (h : boundedLine maxRpcFrameBytes bytes = .ok (some line)) :
    responseOf parse bytes = (parse line).bind RpcResponse.fromValue := by
  unfold boundedLine at h
  split_ifs at h
  · cases h
  · split at h <;> cases h
    rename_i hu
    simp [responseOf, hu]

/-- A routed response that finds its receiver. -/
def received (s : Exchange) (sent : Option (Caller × RpcResponse)) : List (Caller × RpcResponse) :=
  sent.toList.filter fun answer => answer.1 ∉ s.closed

theorem finishRead_line (parse : String → Option Json) {bytes : List UInt8} {line : String}
    (h : boundedLine maxRpcFrameBytes bytes = .ok (some line)) :
    let t := s.finishRead parse bytes
    let route := routeResponse parse line s.pending
    t.delivered = s.delivered ++ s.received route.sent ∧ t.pending = route.pending ∧
      t.accepted = s.accepted ∧ t.routed = s.routed ++ [⟨bytes, s.pending, s.closed⟩] ∧
      (t.phase = .selecting ∨ t.phase = .stopped) := by
  have hphase : ∀ failed : Bool, (if failed then Phase.stopped else .selecting) = .selecting ∨
      (if failed then Phase.stopped else .selecting) = .stopped := by decide
  simp only [finishRead, h]
  cases hs : (routeResponse parse line s.pending).sent with
  | none => exact ⟨by simp [received], rfl, rfl, rfl, hphase _⟩
  | some answer =>
    by_cases hc : answer.1 ∈ s.closed
    · simp only [send, hc, if_true]
      exact ⟨by simp [received, hc], trivial, trivial, trivial, hphase _⟩
    · simp only [send, hc, if_false]
      exact ⟨by simp [received, hc], trivial, trivial, trivial, hphase _⟩

theorem Answered.finishRead (h : Answered parse s) (bytes : List UInt8) :
    Answered parse (s.finishRead parse bytes) := by
  cases hb : boundedLine maxRpcFrameBytes bytes with
  | error _ => simp only [Exchange.finishRead, hb]; exact h.of_eq rfl rfl
  | ok line =>
    cases line with
    | none => simp only [Exchange.finishRead, hb]; exact h.of_eq rfl rfl
    | some line =>
      obtain ⟨hd, -, -, hr, -⟩ := finishRead_line (s := s) parse hb
      have hresp := responseOf_eq parse hb
      constructor
      · intro entry he r hre c hc hn
        rw [hr] at he
        rw [hd]
        rcases List.mem_append.mp he with he | he
        · exact List.mem_append_left _ (h.complete entry he r hre c hc hn)
        · rw [List.mem_singleton.mp he] at hre hc hn
          rw [hresp] at hre
          obtain ⟨raw, hp, hf⟩ := Option.bind_eq_some_iff.mp hre
          refine List.mem_append_right _ ?_
          simp [received, routeResponse_response hp hf hc, hn]
      · intro c r hm
        rw [hd] at hm
        rw [hr]
        rcases List.mem_append.mp hm with hm | hm
        · rcases h.origin c r hm with ⟨entry, he, h1, h2⟩ | ho
          · exact .inl ⟨entry, List.mem_append_left _ he, h1, h2⟩
          · exact .inr ho
        · simp only [received, List.mem_filter, Option.mem_toList] at hm
          rcases routeResponse_cases parse line s.pending with ⟨-, hn⟩ | ⟨id, caller, hl, -, hs⟩
          · rw [hn] at hm
            cases hm.1
          · obtain ⟨rfl, rfl, raw, hp, hf⟩ := hs c r hm.1
            refine .inl ⟨_, List.mem_append_right _ (List.mem_singleton.mpr rfl), ?_, hl⟩
            rw [hresp, hp]
            exact hf

theorem Answered.step (h : Answered parse s) (hs : s.step parse e = some t) : Answered parse t := by
  unfold Exchange.step at hs
  split at hs
  · cases hs
    exact h.of_eq rfl rfl
  · cases hs
    exact h.of_eq rfl rfl
  · split at hs
    · split_ifs at hs <;> cases hs <;> exact h.of_eq rfl rfl
    · cases hs
  · split_ifs at hs
    cases hs
    exact h.of_eq rfl rfl
  · rename_i call
    split_ifs at hs with hp
    cases hs
    have h' : Answered parse { s with taken := [], accepted := call.caller :: s.accepted } := h.of_eq rfl rfl
    unfold writeRequest
    split_ifs
    · exact h'
    · split
      · exact h'
      · split_ifs
        · exact h'.send_oversized _ _
        · exact h'.of_eq rfl rfl
  · split_ifs at hs
    cases hs
    exact h.of_eq rfl rfl
  · split_ifs at hs with hp
    cases hs
    have h' : ∀ unread, Answered parse { s with unread := unread } := fun unread => h.of_eq rfl rfl
    split_ifs
    · exact (h' _).finishRead _
    · exact h.of_eq rfl rfl
  · split_ifs at hs
    cases hs
    exact h.of_eq rfl rfl
  · split_ifs at hs with hp
    cases hs
    exact h.finishRead _

/-! ### No caller is answered twice -/

/-- Steps that answer no one and add no sender. -/
theorem Once.of_eq (h : Once s) (hd : t.delivered = s.delivered) (ha : s.accepted ⊆ t.accepted)
    (hl : ∀ id caller, t.pending.lookup id = some caller → s.pending.lookup id = some caller)
    (hp : ∀ id caller, t.phase = .writing id caller → s.phase = .writing id caller) : Once t where
  nodup := by simpa only [answered, hd] using h.nodup
  accepted caller hc := ha (h.accepted caller (by simpa only [answered, hd] using hc))
  pending id caller hc := by
    obtain ⟨h1, h2⟩ := h.pending id caller (hl id caller hc)
    exact ⟨ha h1, by simpa only [answered, hd] using h2⟩
  injective id id' caller h1 h2 := h.injective id id' caller (hl _ _ h1) (hl _ _ h2)
  writing id caller hw := by
    obtain ⟨h1, h2, h3⟩ := h.writing id caller (hp id caller hw)
    exact ⟨ha h1, by simpa only [answered, hd] using h2, fun id' hc => h3 id' (hl _ _ hc)⟩

/-- Answering a caller for whom no other sender is left. -/
theorem Once.answer (h : Once s) (answer : List (Caller × RpcResponse)) (hl : answer.length ≤ 1)
    (hd : t.delivered = s.delivered ++ answer) (ha : t.accepted = s.accepted)
    (hp : ∀ id caller, t.pending.lookup id = some caller → s.pending.lookup id = some caller)
    (hf : ∀ a ∈ answer, a.1 ∈ s.accepted ∧ a.1 ∉ s.answered ∧ ∀ id, t.pending.lookup id ≠ some a.1)
    (hw : ∀ id caller, t.phase ≠ .writing id caller) : Once t := by
  have hans : t.answered = s.answered ++ answer.map Prod.fst := by simp [answered, hd]
  refine ⟨?_, fun caller hc => ?_, fun id caller hc => ?_, fun id id' caller h1 h2 =>
    h.injective id id' caller (hp _ _ h1) (hp _ _ h2), fun id caller hc => absurd hc (hw id caller)⟩
  · rw [hans, List.nodup_append]
    refine ⟨h.nodup, ?_, fun a ha b hb hab => ?_⟩
    · match answer, hl with
      | [], _ => exact List.nodup_nil
      | [a], _ => exact List.nodup_singleton _
    · obtain ⟨x, hx, rfl⟩ := List.mem_map.mp hb
      exact (hf x hx).2.1 (hab ▸ ha)
  · rw [ha]
    rw [hans] at hc
    rcases List.mem_append.mp hc with hc | hc
    · exact h.accepted caller hc
    · obtain ⟨x, hx, rfl⟩ := List.mem_map.mp hc
      exact (hf x hx).1
  · obtain ⟨h1, h2⟩ := h.pending id caller (hp id caller hc)
    rw [ha, hans]
    refine ⟨h1, fun hm => ?_⟩
    rcases List.mem_append.mp hm with hm | hm
    · exact h2 hm
    · obtain ⟨x, hx, rfl⟩ := List.mem_map.mp hm
      exact (hf x hx).2.2 id hc

theorem Once.finishRead (h : Once s) (bytes : List UInt8) : Once (s.finishRead parse bytes) := by
  cases hb : boundedLine maxRpcFrameBytes bytes with
  | error _ =>
    simp only [Exchange.finishRead, hb]
    exact h.of_eq rfl (List.Subset.refl _) (fun _ _ hc => hc) (by simp)
  | ok line =>
    cases line with
    | none =>
      simp only [Exchange.finishRead, hb]
      exact h.of_eq rfl (List.Subset.refl _) (fun _ _ hc => hc) (by simp)
    | some line =>
      obtain ⟨hd, hp, ha, -, hphase⟩ := finishRead_line (s := s) parse hb
      have hw : ∀ id caller, (s.finishRead parse bytes).phase ≠ .writing id caller := by
        intro id caller he
        rcases hphase with hph | hph <;> rw [hph] at he <;> cases he
      have hlen : (s.received (routeResponse parse line s.pending).sent).length ≤ 1 := by
        refine Nat.le_trans (List.length_filter_le _ _) ?_
        cases (routeResponse parse line s.pending).sent <;> simp
      refine h.answer _ hlen hd ha (fun id caller hc => ?_) (fun a ham => ?_) hw
      · rw [hp] at hc
        rcases routeResponse_cases parse line s.pending with ⟨he, -⟩ | ⟨id', c', -, he, -⟩
        · rwa [he] at hc
        · rw [he, Table.lookup_erase_ite] at hc
          split_ifs at hc
          exact hc
      · obtain ⟨c, r⟩ := a
        simp only [received, List.mem_filter, Option.mem_toList] at ham
        rcases routeResponse_cases parse line s.pending with ⟨-, hn⟩ | ⟨id', c', hl, he, hs⟩
        · rw [hn] at ham
          cases ham.1
        · obtain ⟨rfl, -, -⟩ := hs c r ham.1
          obtain ⟨h1, h2⟩ := h.pending id' c hl
          refine ⟨h1, h2, fun id hc => ?_⟩
          rw [hp, he, Table.lookup_erase_ite] at hc
          split_ifs at hc with hid
          exact hid (h.injective _ _ _ hc hl)

/-- A request taken from the queue brings a caller no one has answered yet. -/
theorem Once.accept (h : Once s) {caller : Caller} (hn : caller ∉ s.accepted) :
    caller ∉ s.answered ∧ ∀ id, s.pending.lookup id ≠ some caller :=
  ⟨fun hm => hn (h.accepted caller hm), fun id hc => hn (h.pending id caller hc).1⟩

theorem Once.request (h : Once s) {call : RpcCall} (hp : s.phase = .selecting)
    (hn : call.caller ∉ s.accepted) :
    Once (writeRequest { s with taken := [], accepted := call.caller :: s.accepted } call) := by
  obtain ⟨hans, hpend⟩ := h.accept hn
  have h' : Once { s with taken := [], accepted := call.caller :: s.accepted } :=
    h.of_eq rfl (List.subset_cons_self _ _) (fun _ _ hc => hc) fun _ _ hw => hw
  unfold writeRequest
  split_ifs with hcl
  · exact h'
  · split
    · exact h'
    · split_ifs
      · unfold send
        rw [if_neg hcl]
        refine h'.answer [(call.caller, oversizedResponse call.id)] le_rfl rfl rfl
          (fun _ _ hc => hc) (fun a ha => ?_) (by simp [hp])
        rw [List.mem_singleton.mp ha]
        exact ⟨List.mem_cons_self, hans, hpend⟩
      · refine ⟨h'.nodup, h'.accepted, h'.pending, h'.injective, fun id caller hw => ?_⟩
        cases hw
        exact ⟨List.mem_cons_self, hans, hpend⟩

/-- The call whose request has been written becomes pending. -/
theorem Once.written (h : Once s) {id : ℕ} {caller : Caller} (hp : s.phase = .writing id caller) :
    Once { s with phase := .selecting, pending := s.pending.insert id caller } := by
  obtain ⟨hacc, hans, hpend⟩ := h.writing id caller hp
  refine ⟨h.nodup, h.accepted, fun id' c hc => ?_, fun id' id'' c h1 h2 => ?_, by simp⟩
  · rw [Table.lookup_insert_ite] at hc
    split_ifs at hc
    · cases hc
      exact ⟨hacc, hans⟩
    · exact h.pending id' c hc
  · rw [Table.lookup_insert_ite] at h1 h2
    split_ifs at h1 h2 with he he'
    · rw [he, he']
    · cases h1
      exact absurd h2 (hpend _)
    · cases h2
      exact absurd h1 (hpend _)
    · exact h.injective id' id'' c h1 h2

theorem Once.step (h : Once s) (hs : s.step parse e = some t) : Once t := by
  have stop : Once { s with phase := .stopped } :=
    h.of_eq rfl (List.Subset.refl _) (fun _ _ hc => hc) (by simp)
  unfold Exchange.step at hs
  split at hs
  · cases hs
    exact h.of_eq rfl (List.Subset.refl _) (fun _ _ hc => hc) fun _ _ hw => hw
  · cases hs
    exact stop
  · split at hs
    · rename_i hp
      split_ifs at hs <;> cases hs
      · exact stop
      · exact h.of_eq rfl (List.Subset.refl _) (fun _ _ hc => hc) (by simp)
      · exact h.written hp
    · cases hs
  · split_ifs at hs
    cases hs
    refine h.of_eq rfl (List.Subset.refl _) (fun id c hc => ?_) fun _ _ hw => hw
    rw [Table.lookup_retain] at hc
    exact (Option.filter_eq_some_iff.mp hc).1
  · split_ifs at hs with hp
    cases hs
    exact h.request hp.1 hp.2
  · split_ifs at hs
    cases hs
    exact stop
  · split_ifs at hs with hp
    cases hs
    have h' : ∀ unread, Once { s with unread := unread } := fun unread =>
      h.of_eq rfl (List.Subset.refl _) (fun _ _ hc => hc) fun _ _ hw => hw
    split_ifs
    · exact (h' _).finishRead _
    · exact h.of_eq rfl (List.Subset.refl _) (fun _ _ hc => hc) fun _ _ hw => hw
  · split_ifs at hs
    cases hs
    exact stop
  · split_ifs at hs
    cases hs
    exact h.finishRead _

end Exchange

open Exchange

/-- In every run in which no other branch wins while a read holds part of a line: the lines
routed are the lines of the daemon's stream, in order, each from its own first byte, and while
the loop runs the rest of the stream is still to be read from the start of its next line; every
routed response whose caller was pending and still waiting is delivered to that caller; what is
delivered came from such a line, or tells a caller its request was too large; and no caller is
answered twice. -/
theorem responses_delivered {input : List UInt8} {events : List Event} {t : Exchange}
    (h : Run (WholeStep parse) { unread := input } events t) :
    (t.routed.map Routed.line <+: pieces newline input) ∧
    (t.phase ≠ .stopped →
      t.routed.map Routed.line ++ pieces newline (t.taken ++ t.unread) = pieces newline input ∧
      newline ∉ t.taken) ∧
    (∀ entry ∈ t.routed, ∀ response, responseOf parse entry.line = some response →
      ∀ caller, entry.pending.lookup response.id = some caller → caller ∉ entry.closed →
        (caller, response) ∈ t.delivered) ∧
    (∀ caller response, (caller, response) ∈ t.delivered →
      (∃ entry ∈ t.routed, responseOf parse entry.line = some response ∧
        entry.pending.lookup response.id = some caller) ∨ ∃ id, response = oversizedResponse id) ∧
    (t.delivered.map Prod.fst).Nodup ∧
    (t.phase = .selecting → t.unread ≠ [] → ∀ available, 0 < available →
      ∃ u, t.step parse (.read available) = some u ∧ u.unread.length < t.unread.length) := by
  have hf : Framed input t := h.invariant (framed_start input) fun _ _ _ hi ⟨⟨hs⟩, hw⟩ => hi.step hs hw
  have ha : Answered parse t := h.invariant ⟨by simp, by simp⟩ fun _ _ _ hi ⟨⟨hs⟩, _⟩ => hi.step hs
  have ho : Once t := h.invariant ⟨by simp [answered], by simp [answered], by simp, by simp, by simp⟩
    fun _ _ _ hi ⟨⟨hs⟩, _⟩ => hi.step hs
  exact ⟨hf.routed_prefix, fun hn => ⟨hf.rest hn, hf.taken.1⟩, ha.complete, ha.origin, ho.nodup,
    fun hp hu available hav => hf.read_progress hp hu hav⟩

/-! ### A run for each case -/

/-- `{"jsonrpc":"2.0","id":1}` and a newline. -/
private def demoLine : List UInt8 :=
  [123, 34, 106, 115, 111, 110, 114, 112, 99, 34, 58, 34, 50, 46, 48, 34, 44, 34, 105, 100, 34, 58, 49, 125, 10]

private def demoParse (text : String) : Option Json :=
  if text = "\x7b\"jsonrpc\":\"2.0\",\"id\":1\x7d\n" then
    some (.object [("jsonrpc", .string "2.0"), ("id", .integer 1)])
  else none

private def demoCall : RpcCall := ⟨1, 7, some [49]⟩

/-- The response arrives in two reads, with nothing in between. -/
private def wholeEvents : List Event := [.request demoCall, .written true, .read 12, .read 13]

/-- The same two reads, with a sweep tick between them. -/
private def tornEvents : List Event := [.request demoCall, .written true, .read 12, .tick, .read 13]

private theorem whole_isSome :
    (wholeEvents.foldlM (Exchange.step demoParse) { unread := demoLine }).isSome = true := by decide

private theorem torn_isSome :
    (tornEvents.foldlM (Exchange.step demoParse) { unread := demoLine }).isSome = true := by decide

theorem responses_delivered_whole :
    ∃ t, Run (WholeStep demoParse) { unread := demoLine } wholeEvents t ∧
      t.delivered.map Prod.fst = [7] ∧ (t.routed.map Routed.line <+: pieces newline demoLine) := by
  have h : Run (WholeStep demoParse) { unread := demoLine } wholeEvents
      ((wholeEvents.foldlM (Exchange.step demoParse) { unread := demoLine }).get whole_isSome) :=
    .snoc (.snoc (.snoc (.snoc .nil ⟨⟨rfl⟩, rfl⟩) ⟨⟨rfl⟩, trivial⟩) ⟨⟨rfl⟩, trivial⟩) ⟨⟨rfl⟩, trivial⟩
  exact ⟨_, h, by decide, (responses_delivered h).1⟩

theorem response_lost :
    ∃ t, Run (ExchangeStep demoParse) { unread := demoLine } tornEvents t ∧
      pieces newline demoLine = [demoLine] ∧ (responseOf demoParse demoLine).map RpcResponse.id = some 1 ∧
      t.pending.lookup 1 = some 7 ∧ 7 ∉ t.closed ∧ t.phase = .selecting ∧ t.unread = [] ∧ t.taken = [] ∧
      t.delivered.length = 0 ∧ ¬ (t.routed.map Routed.line <+: pieces newline demoLine) := by
  have h : Run (ExchangeStep demoParse) { unread := demoLine } tornEvents _ :=
    Run.of_foldlM (fun _ _ _ hs => ⟨hs⟩) (Option.some_get torn_isSome).symm
  exact ⟨_, h, by decide, by decide, by decide, by decide, by decide, by decide, by decide, by decide, by decide⟩

end Lasper.Rpc
