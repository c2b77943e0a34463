import Yeah.Keyed

namespace Yeah.Limits

structure RateRule where
  name : String
  limit : Nat
  windowMs : Nat
  deriving DecidableEq

structure RateResult where
  allowed : Bool
  remaining : Nat
  retryAfterSec : Nat
  deriving DecidableEq

structure Bucket where
  count : Nat
  resetAt : Nat

structure RateCall where
  key : String
  rule : RateRule
  now : Nat

namespace RateCall

variable (c : RateCall)

def id : String := c.rule.name ++ ":" ++ c.key

end RateCall

def live (bucket : Option Bucket) (now : Nat) : Option Bucket := bucket.filter fun b => now < b.resetAt

/-- The part of `hit` that is about the bucket of the call. -/
def hitBucket (bucket : Option Bucket) (c : RateCall) : Option Bucket × RateResult :=
  let b := (live bucket c.now).getD ⟨0, c.now + c.rule.windowMs⟩
  let count := b.count + 1
  let allowed := count ≤ c.rule.limit
  (some { b with count }, ⟨allowed, c.rule.limit - count, if allowed then 0 else max 1 ((b.resetAt - c.now + 999) / 1000)⟩)

structure RateLimiter where
  buckets : String → Option Bucket
  sinceSweep : Nat

namespace RateLimiter

def new : RateLimiter := ⟨fun _ => none, 0⟩

def sweep (l : RateLimiter) (now : Nat) : RateLimiter := ⟨fun id => live (l.buckets id) now, 0⟩

def hit (l : RateLimiter) (c : RateCall) : RateLimiter × RateResult :=
  let counted : RateLimiter := { l with sinceSweep := l.sinceSweep + 1 }
  let swept := if 500 ≤ counted.sinceSweep then sweep counted c.now else counted
  let (buckets, result) := Keyed.step hitBucket RateCall.id swept.buckets c
  ({ swept with buckets }, result)

end RateLimiter

open RateLimiter

def resultsFrom (l : RateLimiter) (calls : List RateCall) : List (RateCall × RateResult) :=
  Keyed.runOne hit l calls

def limiterAfter (calls : List RateCall) : RateLimiter := Keyed.finalOne hit new calls

/-- The buckets of the same limiter without sweeping. -/
def bucketsAfter (calls : List RateCall) : String → Option Bucket :=
  Keyed.final hitBucket RateCall.id (fun _ => none) calls

def resultsUnswept (calls : List RateCall) : List (RateCall × RateResult) :=
  Keyed.run hitBucket RateCall.id (fun _ => none) calls

def Ordered (calls : List RateCall) : Prop := calls.Pairwise fun c d => c.now ≤ d.now

/-- Rules are told apart by their names, in which there is no colon. -/
def Named (calls : List RateCall) : Prop :=
  (∀ c ∈ calls, ':' ∉ c.rule.name.toList) ∧
      ∀ c ∈ calls, ∀ d ∈ calls, c.rule.name = d.rule.name → c.rule = d.rule

def admitted (rule : RateRule) (key : String) (since til : Nat) (rs : List (RateCall × RateResult)) : Nat :=
  (rs.filter fun p => p.1.rule = rule && p.1.key = key && since ≤ p.1.now && p.1.now < til && p.2.allowed).length

section Sweep

/-- A limiter that the calls from now on cannot tell from one without sweeping. -/
def Same (now : Nat) (l : RateLimiter) (buckets : String → Option Bucket) : Prop :=
  ∀ id, live (l.buckets id) now = live (buckets id) now

variable {bucket : Option Bucket} {now after : Nat} {l : RateLimiter} {buckets : String → Option Bucket}

theorem live_live (h : now ≤ after) : live (live bucket now) after = live bucket after := by
  rw [live, live, live, Option.filter_filter]
  congr 1
  funext b
  by_cases hb : after < b.resetAt
  · simp [hb, Nat.lt_of_le_of_lt h hb]
  · simp [hb]

theorem Same.of_le (h : Same now l buckets) (hle : now ≤ after) : Same after l buckets := by
  intro id
  rw [← live_live hle, h id, live_live hle]

theorem hitBucket_live (c : RateCall) : hitBucket (live bucket c.now) c = hitBucket bucket c := by
  rw [hitBucket, hitBucket, live_live (Nat.le_refl _)]

/-- A call with its sweep, or without one, is a call to a limiter that nobody can tell from the one before. -/
theorem hit_step (l : RateLimiter) (c : RateCall) :
    ∃ swept : RateLimiter, Same c.now swept l.buckets ∧
      (l.hit c).1.buckets = (Keyed.step hitBucket RateCall.id swept.buckets c).1 ∧
      (l.hit c).2 = (Keyed.step hitBucket RateCall.id swept.buckets c).2 := by
  by_cases h : 500 ≤ l.sinceSweep + 1
  · refine ⟨sweep { l with sinceSweep := l.sinceSweep + 1 } c.now,
      fun id => live_live (Nat.le_refl _), ?_, ?_⟩
    · simp [hit, h]
    · simp [hit, h]
  · refine ⟨{ l with sinceSweep := l.sinceSweep + 1 }, fun id => rfl, ?_, ?_⟩
    · simp [hit, h]
    · simp [hit, h]

theorem Same.hit {c : RateCall} (h : Same c.now l buckets) :
    (l.hit c).2 = (hitBucket (buckets c.id) c).2 ∧
        Same c.now (l.hit c).1 (Keyed.step hitBucket RateCall.id buckets c).1 := by
  obtain ⟨swept, hswept, hbuckets, hresult⟩ := hit_step l c
  have hsame : ∀ id, live (swept.buckets id) c.now = live (buckets id) c.now :=
    fun id => (hswept id).trans (h id)
  have hbucket : hitBucket (swept.buckets c.id) c = hitBucket (buckets c.id) c := by
    rw [← hitBucket_live, hsame, hitBucket_live]
  constructor
  · rw [hresult, Keyed.step, hbucket]
  · intro id
    rw [hbuckets]
    by_cases hid : c.id = id
    · subst hid
      rw [Keyed.step_same, Keyed.step_same, hbucket]
    · rw [Keyed.step_other hid, Keyed.step_other hid, hsame]

theorem Same.run {calls : List RateCall} (h : Same now l buckets) (hordered : Ordered calls)
    (hnow : ∀ c ∈ calls, now ≤ c.now) :
    resultsFrom l calls = Keyed.run hitBucket RateCall.id buckets calls := by
  induction calls generalizing now l buckets with
  | nil => rfl
  | cons c calls ih =>
      obtain ⟨hresult, hnext⟩ := (h.of_le (hnow c List.mem_cons_self)).hit
      have hrest := ih hnext (List.pairwise_cons.1 hordered).2 (List.pairwise_cons.1 hordered).1
      have hone : resultsFrom l (c :: calls) = (c, (l.hit c).2) :: resultsFrom (l.hit c).1 calls := rfl
      rw [hone, hresult, hrest]
      rfl

theorem Same.final {calls : List RateCall} (h : Same now l buckets) (hordered : Ordered calls)
    (hnow : ∀ c ∈ calls, now ≤ c.now) (hle : now ≤ after)
    (hafter : ∀ c ∈ calls, c.now ≤ after) :
    Same after (Keyed.finalOne RateLimiter.hit l calls) (Keyed.final hitBucket RateCall.id buckets calls) := by
  induction calls generalizing now l buckets with
  | nil => exact h.of_le hle
  | cons c calls ih =>
      obtain ⟨-, hnext⟩ := (h.of_le (hnow c List.mem_cons_self)).hit
      exact ih hnext (List.pairwise_cons.1 hordered).2 (List.pairwise_cons.1 hordered).1
        (hafter c List.mem_cons_self)
        fun d hd => hafter d (List.mem_cons_of_mem _ hd)

theorem same_new (now : Nat) : Same now RateLimiter.new fun _ => none := fun _ => rfl

end Sweep

section Window

variable {rule : RateRule} {bucket : Option Bucket} {b : Bucket} {c : RateCall} {calls : List RateCall} {since til : Nat}

def allowedIn (since til : Nat) (rs : List (RateCall × RateResult)) : Nat :=
  (rs.filter fun p => since ≤ p.1.now && p.1.now < til && p.2.allowed).length

theorem allowedIn_cons (p : RateCall × RateResult) (rs : List (RateCall × RateResult)) :
    allowedIn since til (p :: rs) = (if since ≤ p.1.now ∧ p.1.now < til ∧ p.2.allowed = true then 1 else 0) + allowedIn since til rs := by
  rw [allowedIn, allowedIn, List.filter_cons]
  by_cases h : since ≤ p.1.now ∧ p.1.now < til ∧ p.2.allowed = true
  · simp [h, Nat.add_comm]
  · rw [if_neg h, if_neg (by simpa [and_assoc] using h), Nat.zero_add]

theorem allowedIn_eq_zero {rs : List (RateCall × RateResult)} (h : ∀ p ∈ rs, til ≤ p.1.now) :
    allowedIn since til rs = 0 := by
  rw [allowedIn, List.length_eq_zero_iff, List.filter_eq_nil_iff]
  intro p hp hcount
  have hle := h p hp
  simp only [Bool.and_eq_true, decide_eq_true_eq] at hcount
  omega

theorem allowedIn_mono {til' : Nat} (h : til ≤ til') (rs : List (RateCall × RateResult)) :
    allowedIn since til rs ≤ allowedIn since til' rs := by
  refine (List.monotone_filter_right rs fun p hp => ?_).length_le
  simp only [Bool.and_eq_true, decide_eq_true_eq] at hp ⊢
  exact ⟨⟨hp.1.1, Nat.lt_of_lt_of_le hp.1.2 h⟩, hp.2⟩

theorem live_some (h : c.now < b.resetAt) : live (some b) c.now = some b := by
  rw [live, Option.filter_some, if_pos (decide_eq_true h)]

theorem live_over (h : b.resetAt ≤ c.now) : live (some b) c.now = none := by
  rw [live, Option.filter_some, if_neg (by simpa using h)]

theorem hitBucket_some (h : c.now < b.resetAt) :
    (hitBucket (some b) c).1 = some ⟨b.count + 1, b.resetAt⟩ ∧
        (hitBucket (some b) c).2.allowed = decide (b.count + 1 ≤ c.rule.limit) := by
  rw [hitBucket, live_some h]
  exact ⟨rfl, rfl⟩

theorem hitBucket_opens (h : live bucket c.now = none) :
    (hitBucket bucket c).1 = some ⟨1, c.now + c.rule.windowMs⟩ ∧
        (hitBucket bucket c).2.allowed = decide (1 ≤ c.rule.limit) := by
  rw [hitBucket, h]
  exact ⟨rfl, rfl⟩

theorem allowedIn_window (hrule : ∀ c ∈ calls, c.rule = rule) (hordered : Ordered calls)
    (htil : til ≤ b.resetAt) :
    allowedIn since til (Keyed.runOne hitBucket (some b) calls) ≤ rule.limit - b.count := by
  induction calls generalizing b with
  | nil => exact Nat.zero_le _
  | cons c calls ih =>
      rw [List.forall_mem_cons] at hrule
      obtain ⟨hle, hordered⟩ := List.pairwise_cons.1 hordered
      by_cases h : c.now < b.resetAt
      · obtain ⟨hbucket, hallowed⟩ := hitBucket_some h
        have hrest := @ih ⟨b.count + 1, b.resetAt⟩ hrule.2 hordered htil
        rw [Keyed.runOne, allowedIn_cons, hbucket, hallowed, hrule.1]
        split_ifs with hcount
        · have hone := of_decide_eq_true hcount.2.2
          dsimp only at hrest
          omega
        · dsimp only at hrest
          omega
      · rw [allowedIn_eq_zero]
        · exact Nat.zero_le _
        · intro p hp
          have hnow : c.now ≤ p.1.now := by
            rcases List.mem_cons.1 (Keyed.mem_runOne hp) with he | hmem
            · exact Nat.le_of_eq (congrArg RateCall.now he.symm)
            · exact hle _ hmem
          omega

theorem allowedIn_opens (hrule : ∀ d ∈ c :: calls, d.rule = rule) (hordered : Ordered (c :: calls))
    (hopens : live bucket c.now = none) :
    allowedIn since (c.now + rule.windowMs) (Keyed.runOne hitBucket bucket (c :: calls)) ≤ rule.limit := by
  rw [List.forall_mem_cons] at hrule
  obtain ⟨hbucket, hallowed⟩ := hitBucket_opens hopens
  have hrest :=
    @allowedIn_window rule ⟨1, c.now + rule.windowMs⟩ calls since (c.now + rule.windowMs) hrule.2 (List.pairwise_cons.1 hordered).2 (Nat.le_refl _)
  rw [Keyed.runOne, allowedIn_cons, hbucket, hallowed, hrule.1]
  split_ifs with hcount
  · have hone := of_decide_eq_true hcount.2.2
    dsimp only at hrest
    omega
  · dsimp only at hrest
    omega

/-- After the window of a bucket at most one more is opened before another window's length is over. -/
theorem allowedIn_two (hrule : ∀ c ∈ calls, c.rule = rule) (hordered : Ordered calls)
    (htil : til ≤ b.resetAt + rule.windowMs) :
    allowedIn since til (Keyed.runOne hitBucket (some b) calls) ≤ (rule.limit - b.count) + rule.limit := by
  induction calls generalizing b with
  | nil => exact Nat.zero_le _
  | cons c calls ih =>
      by_cases h : c.now < b.resetAt
      · rw [List.forall_mem_cons] at hrule
        obtain ⟨hbucket, hallowed⟩ := hitBucket_some h
        have hrest := @ih ⟨b.count + 1, b.resetAt⟩ hrule.2 (List.pairwise_cons.1 hordered).2 htil
        rw [Keyed.runOne, allowedIn_cons, hbucket, hallowed, hrule.1]
        split_ifs with hcount
        · have hone := of_decide_eq_true hcount.2.2
          dsimp only at hrest
          omega
        · dsimp only at hrest
          omega
      · have hopens :=
          @allowedIn_opens rule (some b) c calls since hrule hordered (live_over (Nat.le_of_not_lt h))
        have hmono :=
          @allowedIn_mono since til (c.now + rule.windowMs) (by omega) (Keyed.runOne hitBucket (some b) (c :: calls))
        omega

theorem allowedIn_interval (hrule : ∀ c ∈ calls, c.rule = rule) (hordered : Ordered calls)
    (hpos : 0 < rule.windowMs)
    (htil : til ≤ since + rule.windowMs + 1) :
    allowedIn since til (Keyed.runOne hitBucket bucket calls) ≤ 2 * rule.limit := by
  induction calls generalizing bucket with
  | nil => exact Nat.zero_le _
  | cons c calls ih =>
      have hrules := hrule
      rw [List.forall_mem_cons] at hrule
      by_cases hsince : since ≤ c.now
      · cases hlive : live bucket c.now with
        | some b =>
            obtain ⟨rfl, hb⟩ := Option.filter_eq_some_iff.1 hlive
            have hlt : c.now < b.resetAt := of_decide_eq_true hb
            have htwo := @allowedIn_two rule b (c :: calls) since til hrules hordered (by omega)
            omega
        | none =>
            obtain ⟨hbucket, hallowed⟩ := hitBucket_opens hlive
            have htwo :=
              @allowedIn_two rule ⟨1, c.now + rule.windowMs⟩ calls since til hrule.2 (List.pairwise_cons.1 hordered).2 (by dsimp only; omega)
            rw [Keyed.runOne, allowedIn_cons, hbucket, hallowed, hrule.1]
            split_ifs with hcount
            · have hone := of_decide_eq_true hcount.2.2
              dsimp only at htwo
              omega
            · dsimp only at htwo
              omega
      · have hrest := @ih (hitBucket bucket c).1 hrule.2 (List.pairwise_cons.1 hordered).2
        rw [Keyed.runOne, allowedIn_cons, if_neg fun h => hsince h.1, Nat.zero_add]
        exact hrest

end Window

section Named

variable {c d : RateCall} {calls : List RateCall}

theorem id_toList (c : RateCall) : c.id.toList = c.rule.name.toList ++ ':' :: c.key.toList := by
  have hcolon : ":".toList = [':'] := rfl
  rw [RateCall.id, String.toList_append, String.toList_append, hcolon, List.append_assoc]
  rfl

theorem id_inj (hc : ':' ∉ c.rule.name.toList) (hd : ':' ∉ d.rule.name.toList) (h : c.id = d.id) :
    c.rule.name = d.rule.name ∧ c.key = d.key := by
  have htext := congrArg String.toList h
  rw [id_toList, id_toList] at htext
  have htake : ∀ {name key : List Char}, ':' ∉ name →
    (name ++ ':' :: key).takeWhile (· ≠ ':') = name := by
    intro name key hn
    have hpos : ∀ a ∈ name, decide (a ≠ ':') = true := by
      intro a ha
      rw [decide_eq_true_eq]
      rintro rfl
      exact hn ha
    rw [List.takeWhile_append_of_pos hpos]
    simp
  have hname := congrArg (List.takeWhile (· ≠ ':')) htext
  rw [htake hc, htake hd] at hname
  rw [hname] at htext
  exact ⟨String.toList_inj.1 hname, String.toList_inj.1 (List.cons.inj (List.append_cancel_left htext)).2⟩

theorem Named.id_iff (h : Named calls) (hc : c ∈ calls) (hd : d ∈ calls) :
    d.id = c.id ↔ d.rule = c.rule ∧ d.key = c.key := by
  constructor
  · intro hid
    obtain ⟨hname, hkey⟩ := id_inj (h.1 d hd) (h.1 c hc) hid
    exact ⟨h.2 d hd c hc hname, hkey⟩
  · rintro ⟨hrule, hkey⟩
    rw [RateCall.id, RateCall.id, hrule, hkey]

theorem Named.sublist {calls' : List RateCall} (h : Named calls) (hsub : ∀ c ∈ calls', c ∈ calls) :
    Named calls' :=
  ⟨fun c hc => h.1 c (hsub c hc), fun c hc d hd => h.2 c (hsub c hc) d (hsub d hd)⟩

theorem admitted_eq (h : Named calls) (hc : c ∈ calls) (buckets : String → Option Bucket)
    (since til : Nat) :
    admitted c.rule c.key since til (Keyed.run hitBucket RateCall.id buckets calls) =
      allowedIn since til (Keyed.runOne hitBucket (buckets c.id) (calls.filter fun d => d.id = c.id)) := by
  rw [← Keyed.run_filter, allowedIn, admitted, List.filter_filter]
  congr 1
  refine List.filter_congr fun p hp => ?_
  have hid := h.id_iff hc (Keyed.mem_runOne hp)
  rw [Bool.eq_iff_iff]
  simp only [Bool.and_eq_true, decide_eq_true_eq, hid]
  tauto

end Named

section Runs

variable {calls before after : List RateCall} {c : RateCall}

theorem same_after (hordered : Ordered (before ++ c :: after)) :
    Same c.now (limiterAfter before) (bucketsAfter before) := by
  obtain ⟨hbefore, -, hle⟩ := List.pairwise_append.1 hordered
  exact (same_new 0).final hbefore (fun _ _ => Nat.zero_le _) (Nat.zero_le _)
    fun d hd => hle d hd c List.mem_cons_self

/-- From a call on, the limiter answers as the one without sweeping. -/
theorem resultsFrom_after (hordered : Ordered (before ++ c :: after)) :
    resultsFrom (limiterAfter before) (c :: after) = Keyed.run hitBucket RateCall.id (bucketsAfter before) (c :: after) := by
  refine (same_after hordered).run (List.pairwise_append.1 hordered).2.1 fun d hd => ?_
  rcases List.mem_cons.1 hd with rfl | hd
  · exact Nat.le_refl _
  · exact (List.pairwise_cons.1 (List.pairwise_append.1 hordered).2.1).1 d hd

theorem bucketsAfter_quiet {between : List RateCall} (h : ∀ x ∈ between, x.id ≠ c.id) :
    bucketsAfter (before ++ c :: between) c.id = (hitBucket (bucketsAfter before c.id) c).1 := by
  have hquiet : between.filter (fun x => x.id = c.id) = [] :=
    List.filter_eq_nil_iff.2 fun x hx => by simpa using h x hx
  rw [bucketsAfter, bucketsAfter, Keyed.final_apply, Keyed.final_apply, List.filter_append, List.filter_cons_of_pos (by simp), hquiet, Keyed.finalOne,
    Keyed.finalOne, List.foldl_append]
  rfl

theorem admitted_interval {rule : RateRule} {key : String} {since til : Nat} (hordered : Ordered calls)
    (hnamed : Named calls)
    (hpos : 0 < rule.windowMs) (htil : til ≤ since + rule.windowMs + 1) :
    admitted rule key since til (resultsUnswept calls) ≤ 2 * rule.limit := by
  by_cases hc : ∃ c ∈ calls, c.rule = rule ∧ c.key = key
  · obtain ⟨c, hc, rfl, rfl⟩ := hc
    rw [resultsUnswept, admitted_eq hnamed hc]
    refine allowedIn_interval (fun d hd => ?_) (hordered.sublist List.filter_sublist) hpos htil
    obtain ⟨hd, hid⟩ := List.mem_filter.1 hd
    exact ((hnamed.id_iff hc hd).1 (of_decide_eq_true hid)).1
  · have hnone : admitted rule key since til (resultsUnswept calls) = 0 := by
      rw [admitted, List.length_eq_zero_iff, List.filter_eq_nil_iff]
      intro p hp hcount
      simp only [Bool.and_eq_true, decide_eq_true_eq] at hcount
      exact hc ⟨p.1, Keyed.mem_runOne hp, hcount.1.1.1.1, hcount.1.1.1.2⟩
    omega

theorem hitBucket_retry {bucket : Option Bucket} (h : (hitBucket bucket c).2.allowed = false) :
    ∃ b, (hitBucket bucket c).1 = some b ∧
      b.resetAt ≤ c.now + 1000 * (hitBucket bucket c).2.retryAfterSec := by
  refine ⟨_, rfl, ?_⟩
  have hcount := of_decide_eq_false h
  have hretry : (hitBucket bucket c).2.retryAfterSec =
      max 1 ((((live bucket c.now).getD ⟨0, c.now + c.rule.windowMs⟩).resetAt - c.now + 999) / 1000) :=
        if_neg hcount
  rw [hretry]
  dsimp only
  omega

end Runs

/-- The sweep is not seen, a window and an interval of its length are bounded, and waiting as long as the answer says is enough. -/
theorem limiter_bounds (calls : List RateCall) (hordered : Ordered calls) (hnamed : Named calls)
    (hlimit : ∀ c ∈ calls, 1 ≤ c.rule.limit) :
    resultsFrom RateLimiter.new calls = resultsUnswept calls ∧
      (∀ before c after, calls = before ++ c :: after → live ((limiterAfter before).buckets c.id) c.now = none →
        admitted c.rule c.key c.now (c.now + c.rule.windowMs) (resultsFrom (limiterAfter before) (c :: after)) ≤ c.rule.limit) ∧
      (∀ rule key since,
        admitted rule key since (since + rule.windowMs) (resultsFrom RateLimiter.new calls) ≤ 2 * rule.limit ∧
          (0 < rule.windowMs → admitted rule key since (since + rule.windowMs + 1) (resultsFrom RateLimiter.new calls) ≤ 2 * rule.limit)) ∧
      ∀ before c between d after, calls = before ++ c :: (between ++ d :: after) → d.rule = c.rule →
        d.key = c.key →
        (∀ x ∈ between, ¬ (x.rule = c.rule ∧ x.key = c.key)) →
            ((limiterAfter before).hit c).2.allowed = false →
          c.now + 1000 * ((limiterAfter before).hit c).2.retryAfterSec ≤ d.now →
            ((limiterAfter (before ++ c :: between)).hit d).2.allowed = true := by
  have hunswept : resultsFrom RateLimiter.new calls = resultsUnswept calls :=
    (same_new 0).run hordered fun _ _ => Nat.zero_le _
  refine ⟨hunswept, ?_, ?_, ?_⟩
  · rintro before c after rfl hopens
    have hmem : ∀ d ∈ c :: after, d ∈ before ++ c :: after := fun d hd => List.mem_append_right _ hd
    have hsuffix : Ordered (c :: after) := (List.pairwise_append.1 hordered).2.1
    rw [resultsFrom_after hordered, admitted_eq (hnamed.sublist hmem) List.mem_cons_self,
      List.filter_cons_of_pos (by simp)]
    rw [same_after hordered] at hopens
    refine allowedIn_opens ?_ ?_ hopens
    · intro d hd
      rcases List.mem_cons.1 hd with rfl | hd
      · rfl
      · obtain ⟨hd, hid⟩ := List.mem_filter.1 hd
        exact ((hnamed.id_iff (hmem c List.mem_cons_self) (hmem d (List.mem_cons_of_mem _ hd))).1 (of_decide_eq_true hid)).1
    · exact hsuffix.sublist (List.filter_sublist.cons_cons c)
  · intro rule key since
    rw [hunswept]
    refine ⟨?_, fun hpos => admitted_interval hordered hnamed hpos (Nat.le_refl _)⟩
    rcases Nat.eq_zero_or_pos rule.windowMs with hzero | hpos
    · have hnone : admitted rule key since (since + rule.windowMs) (resultsUnswept calls) = 0 := by
        rw [admitted, List.length_eq_zero_iff, List.filter_eq_nil_iff]
        intro p _ hcount
        simp only [Bool.and_eq_true, decide_eq_true_eq] at hcount
        omega
      omega
    · exact admitted_interval hordered hnamed hpos (Nat.le_succ _)
  · rintro before c between d after rfl hrule hkey hbetween hrefused hwait
    have hid : d.id = c.id := by rw [RateCall.id, RateCall.id, hrule, hkey]
    have hsplit : before ++ c :: (between ++ d :: after) = (before ++ c :: between) ++ d :: after := by
      simp
    have hquiet : ∀ x ∈ between, x.id ≠ c.id := fun x hx hxid =>
      hbetween x hx ((hnamed.id_iff (by simp) (by simp [hx])).1 hxid)
    have hfirst := (same_after hordered).hit.1
    rw [hfirst] at hrefused hwait
    obtain ⟨b, hbucket, hreset⟩ := hitBucket_retry hrefused
    have hover : live (bucketsAfter (before ++ c :: between) d.id) d.now = none := by
      rw [hid, bucketsAfter_quiet hquiet, hbucket]
      exact live_over (Nat.le_trans hreset hwait)
    rw [hsplit] at hordered
    rw [(same_after hordered).hit.1, (hitBucket_opens hover).2]
    exact decide_eq_true (hlimit d (by simp))

theorem limiter_bounds_retry :
    ((limiterAfter [⟨"ip", ⟨"auth", 1, 1000⟩, 0⟩, ⟨"ip", ⟨"auth", 1, 1000⟩, 500⟩]).hit ⟨"ip", ⟨"auth", 1, 1000⟩, 1500⟩).2.allowed = true :=
  (limiter_bounds [⟨"ip", ⟨"auth", 1, 1000⟩, 0⟩, ⟨"ip", ⟨"auth", 1, 1000⟩, 500⟩, ⟨"ip", ⟨"auth", 1, 1000⟩, 1500⟩]
    (by simp [Ordered]) ⟨by decide, by decide⟩ (by decide)).2.2.2 [⟨"ip", ⟨"auth", 1, 1000⟩, 0⟩] _ [] _ [] rfl rfl rfl (by simp) rfl (by decide +kernel)

end Yeah.Limits
