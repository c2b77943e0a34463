import Yeah.Events.Stream

namespace Yeah.Events

open Runs

def about (kind : Kind) (id : String) (m : Message) : Bool := m.event.About kind id

/-- Each client receives the events of a resource in the order in which they were published. -/
def Ordered (s : State) : Prop :=
  ∀ client kind id, ((s.received client).filter (about kind id)).Sublist (s.published.filter (about kind id))

/-- When an event is sent, no event of its resource that was published before it still waits. -/
def Calm (s : State) : Action → Prop
  | .deliver m => ∀ kind id, about kind id m → ∀ p ∈ s.pending.takeWhile fun p => p.message ≠ m, about kind id p.message = false
  | .publish m _ => (given m.event.teamId).isSome → ∀ kind id, about kind id m → ∀ p ∈ s.pending, about kind id p.message = false
  | _ => True

/-- What was received and what waits is in order, and a client is connected once. -/
structure Queue (s : State) : Prop where
  ids : (s.clients.map Client.id).Nodup
  order : ∀ client kind id,
    ((s.received client ++ s.pending.map Pending.message).filter (about kind id)).Sublist (s.published.filter (about kind id))

variable {tables : Tables} {s : State} {m : Message}

theorem Queue.ordered (h : Queue s) : Ordered s := by
  intro client kind id
  refine List.Sublist.trans ?_ (h.order client kind id)
  rw [List.filter_append]
  exact List.sublist_append_left _ _

theorem queue_empty : Queue State.empty := ⟨List.nodup_nil, fun _ _ _ => List.Sublist.refl _⟩

/-- A client is sent a message once at most. -/
theorem sent_sublist (h : (s.clients.map Client.id).Nodup) (client : Nat) (P : Client → Bool) :
    ((s.clients.filter fun c => c.id = client && P c).map fun _ => m).Sublist [m] := by
  have hcount : (s.clients.filter fun c => c.id = client && P c).length ≤ 1 := by
    calc
      (s.clients.filter fun c => c.id = client && P c).length ≤ s.clients.countP fun c => c.id = client := by
        rw [← List.countP_eq_length_filter]
        exact List.countP_mono_left fun c _ hc => (Bool.and_eq_true_iff.1 hc).1
      _ = (s.clients.map Client.id).count client := by
        rw [List.count, List.countP_map]
        rfl
      _ ≤ 1 := List.nodup_iff_count_le_one.1 h client
  rw [List.map_const']
  exact List.replicate_sublist_replicate _ |>.2 hcount

theorem Queue.send (h : Queue s) {route : Route} {owner : Option String} (pending : List Pending)
    (published : List Message)
    (horder : ∀ client kind id, ((s.received client ++ m :: pending.map Pending.message).filter (about kind id)).Sublist
      (published.filter (about kind id))) : Queue { s.send route owner m with pending := pending, published := published } := by
  refine ⟨h.ids, fun client kind id => ?_⟩
  change (((s.send route owner m).received client ++ _).filter _).Sublist _
  rw [received_send, List.append_assoc]
  refine List.Sublist.trans (List.Sublist.filter _ ((List.Sublist.refl _).append ?_))
    (horder client kind id)
  exact (sent_sublist h.ids client _).append (List.Sublist.refl (pending.map Pending.message))

/-- No event of the resource stands before the one that is sent. -/
theorem deliver_sublist {kind : Kind} {id : String} {pending : List Pending}
    (hf : ∃ p ∈ pending, p.message = m)
    (hcalm : about kind id m → ∀ p ∈ pending.takeWhile fun p => p.message ≠ m, about kind id p.message = false) :
    ((m :: (pending.filter fun p => p.message ≠ m).map Pending.message).filter (about kind id)).Sublist
      ((pending.map Pending.message).filter (about kind id)) := by
  by_cases hm : about kind id m
  · have hbefore := hcalm hm
    clear hcalm
    induction pending with
    | nil =>
        obtain ⟨p, hp, -⟩ := hf
        cases hp
    | cons q pending ih =>
        by_cases hq : q.message = m
        · have hdrop : (q :: pending).filter (fun p => p.message ≠ m) =
              pending.filter fun p => p.message ≠ m :=
            List.filter_cons_of_neg (by simp [hq])
          rw [hdrop, List.map_cons, hq]
          exact ((List.filter_sublist.map _).cons_cons m).filter _
        · have hf' : ∃ p ∈ pending, p.message = m := by
            obtain ⟨p, hp, he⟩ := hf
            rcases List.mem_cons.1 hp with rfl | hp
            · exact absurd he hq
            · exact ⟨p, hp, he⟩
          rw [List.takeWhile_cons_of_pos (by simp [hq])] at hbefore
          have hnot : ¬ about kind id q.message := Bool.eq_false_iff.1 (hbefore q List.mem_cons_self)
          have hih := ih hf' fun p hp => hbefore p (List.mem_cons_of_mem _ hp)
          rw [List.filter_cons_of_pos hm] at hih ⊢
          rw [List.filter_cons_of_pos (by simp [hq]), List.map_cons, List.map_cons, List.filter_cons_of_neg hnot,
            List.filter_cons_of_neg hnot]
          exact hih
  · rw [List.filter_cons_of_neg hm]
    exact (List.filter_sublist.map _).filter _

theorem Queue.deliver (h : Queue s) {route : Route} {owner : Option String}
    (hf : ∃ p ∈ s.pending, p.message = m)
    (hcalm : Calm s (.deliver m)) : Queue ((s.send route owner m).forget m) := by
  refine h.send _ s.published fun client kind id => ?_
  refine List.Sublist.trans ?_ (h.order client kind id)
  rw [List.filter_append, List.filter_append]
  exact (List.Sublist.refl _).append (deliver_sublist hf (hcalm kind id))

theorem Queue.publish (h : Queue s)
    (hr : ∃ route, routeEvent m.event = some route ∧ ∀ kind id, route ≠ .resource kind id)
    {now : Nat} (hcalm : Calm s (.publish m now)) (client : Nat) (kind : Kind) (id : String) :
    ((s.received client ++ m :: s.pending.map Pending.message).filter (about kind id)).Sublist
      ((s.published ++ [m]).filter (about kind id)) := by
  have horder := h.order client kind id
  have hpublished : (s.published ++ [m]).filter (about kind id) = s.published.filter (about kind id) ++
    [m].filter (about kind id) :=
    List.filter_append ..
  rw [List.filter_append] at horder ⊢
  rw [hpublished]
  by_cases hm : about kind id m
  · have hteam : (given m.event.teamId).isSome := by
      obtain ⟨route, hroute, hne⟩ := hr
      cases hn : given m.event.teamId with
      | some team => rfl
      | none =>
          have habout := routeEvent_eq_resource_iff.2 ⟨hn, of_decide_eq_true hm⟩
          exact absurd (Option.some_inj.1 (hroute.symm.trans habout)) (hne kind id)
    have hpending : (s.pending.map Pending.message).filter (about kind id) = [] := by
      rw [List.filter_eq_nil_iff]
      intro a ha
      obtain ⟨p, hp, rfl⟩ := List.mem_map.1 ha
      rw [hcalm hteam kind id hm p hp]
      exact Bool.false_ne_true
    rw [hpending, List.append_nil] at horder
    rw [List.filter_cons_of_pos hm, List.filter_cons_of_pos hm, hpending]
    exact horder.append (List.Sublist.refl _)
  · rw [List.filter_cons_of_neg hm]
    exact horder.trans (List.sublist_append_left _ _)

theorem Queue.dispatch (h : Queue s) {now : Nat} (hcalm : Calm s (.publish m now)) :
    Queue (dispatch { s with published := s.published ++ [m] } m now) := by
  have hpublished : Queue { s with published := s.published ++ [m] } :=
    ⟨h.ids, fun client kind id => (h.order client kind id).trans ((List.sublist_append_left _ _).filter _)⟩
  rw [Events.dispatch]
  split
  · exact hpublished
  · next route hr =>
    split
    · exact hpublished
    · split
      · refine ⟨h.ids, fun client kind id => ?_⟩
        have horder := (h.order client kind id).append (List.Sublist.refl ([m].filter (about kind id)))
        rw [← List.filter_append, ← List.filter_append, List.append_assoc] at horder
        rw [List.map_append]
        exact horder
      · next hroute => exact h.send _ _ (h.publish ⟨route, hr, hroute⟩ hcalm)

theorem queue_step (h : Queue s) {a : Action} (ha : Calm s a) : Queue (step tables s a) := by
  cases a with
  | publish m now =>
      rw [step]
      split
      · exact h
      · exact h.dispatch ha
  | resolve m now =>
      have hanswer (owner : Option String) (cache : Cache) : Queue { s.answer m owner with ownerCache := cache } := by
        refine ⟨h.ids, fun client kind id => ?_⟩
        have horder := h.order client kind id
        rw [← messages_answer m owner] at horder
        exact horder
      rw [step]
      split
      · exact hanswer _ s.ownerCache
      · exact hanswer _ _
      · exact h
  | deliver m =>
      rw [step]
      split
      · next kind id owner hf =>
        exact h.deliver ⟨_, mem_of_found hf⟩ ha
      · exact h
  | fail m =>
      refine ⟨h.ids, fun client kind id => List.Sublist.trans ?_ (h.order client kind id)⟩
      exact ((List.Sublist.refl _).append (List.filter_sublist.map _)).filter _
  | connect id teams =>
      rw [step]
      split
      · exact h
      · next hid =>
        refine ⟨?_, h.order⟩
        rw [List.map_append, List.nodup_append]
        refine ⟨h.ids, List.nodup_singleton id, fun a ha b hb hab => hid ?_⟩
        obtain ⟨c, hc, rfl⟩ := List.mem_map.1 ha
        exact List.any_eq_true.2 ⟨c, hc, decide_eq_true (hab.trans (List.mem_singleton.1 hb))⟩
  | disconnect id => exact ⟨h.ids.sublist (List.filter_sublist.map _), h.order⟩
  | refresh id teams =>
      refine ⟨?_, h.order⟩
      have hids : (s.clients.map fun c => if c.id = id then { c with teams := teams } else c).map Client.id = s.clients.map Client.id := by
        rw [List.map_map]
        refine List.map_congr_left fun c _ => ?_
        rw [Function.comp_apply]
        split <;> rfl
      change ((s.clients.map _).map Client.id).Nodup
      rw [hids]
      exact h.ids

section Instances

def sampleTables : Tables where
  servers _ := none
  services _ := none
  applications _ := some "team"
  databases _ := none
  deployments _ := some "application"
  backupSchedules _ := none

def logLine (serial : Nat) : Message :=
  ⟨serial, ⟨.deploymentLog, none, none, none, none, none, some "deployment", none, ""⟩⟩

end Instances

end Yeah.Events
