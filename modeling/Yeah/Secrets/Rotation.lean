import Yeah.Secrets.Encryption
import Yeah.Text.Replace

namespace Yeah.Secrets

open Text

section Keys

variable {c d : Config}

theorem mem_previousKeys {k : String} :
    k ∈ c.previousKeys ↔ k ≠ "" ∧ ∃ s ∈ (c.previous.getD "").toList.splitOn ',', trim (String.ofList s) = k := by
  rw [Config.previousKeys, List.mem_filter, List.mem_map, decide_eq_true_eq, and_comm]

theorem comma_mem_trim {s : String} : ',' ∈ (trim s).toList ↔ ',' ∈ s.toList := by
  rw [trim, String.toList_ofList]
  exact ⟨mem_of_mem_strip, mem_strip_of_not (by decide)⟩

theorem comma_notMem_previousKeys {k : String} (h : k ∈ c.previousKeys) : ',' ∉ k.toList := by
  obtain ⟨-, s, hs, rfl⟩ := mem_previousKeys.1 h
  rw [comma_mem_trim, String.toList_ofList]
  exact notMem_of_mem_splitOn hs

/-- A key that is listed is one of the previous keys exactly if the list does not cut it. -/
theorem listed_iff {K : String} {before after : List String}
    (hc : c.previous = some (",".intercalate (before ++ K :: after)))
    (hK : trim K ≠ "") : trim K ∈ c.previousKeys ↔ ',' ∉ K.toList := by
  constructor
  · intro h hcomma
    exact comma_notMem_previousKeys h (comma_mem_trim.2 hcomma)
  · intro h
    refine mem_previousKeys.2 ⟨hK, K.toList, ?_, by rw [String.ofList_toList]⟩
    have hparts :=
      splitOn_intercalate_flatMap ',' (l := (before ++ K :: after).map String.toList) (by simp)
    rw [hc, Option.getD_some, String.toList_intercalate, show ",".toList = [','] from rfl, hparts,
      List.mem_flatMap]
    exact ⟨K.toList, List.mem_map_of_mem (by simp),
      by rw [List.splitOn_eq_singleton h]; exact List.mem_singleton_self _⟩

theorem keys_of_primary (h : c.primary ≠ "") :
    c.current = .ok c.primary ∧ c.keys = c.primary :: c.previousKeys := by
  have hc : c.current = .ok c.primary := if_pos h
  rw [Config.keys, hc]
  exact ⟨rfl, rfl⟩

theorem current_of_keys {k : String} {ks : List String} (h : c.keys = k :: ks) : c.current = .ok k := by
  rw [Config.keys] at h
  split at h
  · cases h
  · next current hc => rw [hc, (List.cons.inj h).1]

theorem intercalate_previousKeys_inj (h : ",".intercalate c.previousKeys = ",".intercalate d.previousKeys) :
    c.previousKeys = d.previousKeys := by
  have hlists := congrArg String.toList h
  rw [String.toList_intercalate, String.toList_intercalate, show ",".toList = [','] from rfl] at hlists
  have hcut (e : Config) (hne : e.previousKeys ≠ []) :
      ([','].intercalate (e.previousKeys.map String.toList)).splitOn ',' = e.previousKeys.map String.toList := by
    refine List.splitOn_intercalate ',' (fun s hs => ?_) (by simpa using hne)
    obtain ⟨k, hk, rfl⟩ := List.mem_map.1 hs
    exact comma_notMem_previousKeys hk
  have hnil (e : Config) (hne : e.previousKeys ≠ []) : [','].intercalate (e.previousKeys.map String.toList) ≠ [] := by
    intro hn
    have := hcut e hne
    rw [hn, List.splitOn_nil] at this
    cases hk : e.previousKeys with
    | nil => exact hne hk
    | cons k ks =>
        have hk' := (mem_previousKeys.1 (hk ▸ List.mem_cons_self : k ∈ e.previousKeys)).1
        rw [hk, List.map_cons, List.cons.injEq] at this
        exact hk' (String.toList_inj.1 this.1.symm)
  by_cases hc : c.previousKeys = [] <;> by_cases hd : d.previousKeys = []
  · rw [hc, hd]
  · rw [hc] at hlists
    exact absurd hlists.symm (hnil d hd)
  · rw [hd] at hlists
    exact absurd hlists (hnil c hc)
  · have := hcut c hc
    rw [hlists, hcut d hd] at this
    exact (List.map_inj_right fun _ _ => String.toList_inj.1).1 this.symm

/-- Without a bar in the keys the joined text says which keys they are. -/
theorem keys_of_signature (hc : c.primary ≠ "") (hbar : '|' ∉ c.primary.toList)
    (hbar' : '|' ∉ d.primary.toList)
    (h : d.signature = c.signature) : d.keys = c.keys := by
  have hlists := congrArg String.toList h
  simp only [Config.signature, String.toList_append, show "|".toList = ['|'] from rfl, List.append_assoc,
    List.singleton_append]
    at hlists
  obtain ⟨hprimary, hprevious⟩ := append_cons_inj_left hbar' hbar hlists
  have hprimary' : d.primary = c.primary := String.toList_inj.1 hprimary
  rw [(keys_of_primary hc).2, (keys_of_primary (hprimary' ▸ hc : d.primary ≠ "")).2, hprimary',
    intercalate_previousKeys_inj (String.toList_inj.1 hprevious)]

end Keys

/-- No configuration of the history is joined to the text of this one but has other keys. -/
def Distinct (history : List Config) (c : Config) : Prop :=
  ∀ d ∈ history, d.signature = c.signature → d.keys = c.keys

theorem mem_of_held {history : List Config} {d : Config} (h : held history = some d) : d ∈ history := by
  have key : ∀ e : Option Config, history.foldl hold e = some d → e = some d ∨ d ∈ history := by
    clear h
    induction history with
    | nil => exact fun e h => Or.inl h
    | cons c history ih =>
        intro e h
        rcases ih _ h with h | h
        · rw [hold] at h
          split_ifs at h
          · exact Or.inl h
          · exact Or.inr (Option.some.inj h ▸ List.mem_cons_self)
          · exact Or.inl h
        · exact Or.inr (List.mem_cons_of_mem _ h)
  exact (key none h).resolve_left (by simp)

theorem served_keys {history : List Config} {c : Config} (h : Distinct history c) :
    (served history c).keys = c.keys := by
  rw [served]
  cases hd : held history with
  | none => rfl
  | some d =>
      rw [Option.filter_some]
      split_ifs with hs
      · exact h d (mem_of_held hd) (of_decide_eq_true hs)
      · rfl

theorem distinct_of_bar {history : List Config} {c : Config} (hc : c.primary ≠ "")
    (hbar : '|' ∉ c.primary.toList)
    (h : ∀ d ∈ history, '|' ∉ d.primary.toList) : Distinct history c :=
  fun d hd hs => keys_of_signature hc hbar (h d hd) hs

section Rotation

variable {Key : Type} (cipher : Cipher Key) (lossy : List UInt8 → String)

/-- What is encrypted in a process with the one history is read back in a process with the other. -/
def Readable (h h' : List Config) (c c' : Config) (iv : List UInt8) (text : String) : Prop :=
  ∀ stored, encryptSecret cipher (cacheAfter cipher h) c iv text = .ok stored →
    decryptSecret cipher lossy (cacheAfter cipher h') c' stored = .ok text

theorem readable_iff (h h' : List Config) (c c' : Config) {iv : List UInt8} (hiv : iv.length = IV_BYTES)
    (text : String) :
    Readable cipher lossy h h' c c' iv text ↔
      ∀ k, (served h c).current = .ok k → k ∈ (served h' c').keys := by
  rw [Readable, encryptSecret, keyring_served]
  cases hk : (served h c).current with
  | error e => simp [ring_eq_error cipher hk, Except.map]
  | ok k =>
      rw [ring_eq_ok cipher hk]
      have hread : (∃ ring, (served h' c').ring cipher = .ok ring ∧ cipher.deriveKey k ∈ ring.all) ↔
        k ∈ (served h' c').keys := by
        cases hk' : (served h' c').current with
        | error e => simp [ring_eq_error cipher hk', Config.keys, hk']
        | ok k' => simp [ring_eq_ok cipher hk', cipher.deriveKey_injective.eq_iff]
      have hsealed :=
        decryptSecret_sealSecret cipher lossy (cacheAfter cipher h') c' hiv (cipher.deriveKey k) text
      rw [keyring_served, hread] at hsealed
      simp [Except.map, hsealed]

/-- For all keys, texts, positions in the list and histories. -/
theorem rotated_readable_iff (K₁ K₂ : String) (before after : List String) (previous : Option String)
    (production production' : Bool)
    (h h' : List Config) (iv : { l : List UInt8 // l.length = IV_BYTES }) (text : String) :
    let c : Config := ⟨some K₁, previous, production⟩
    let c' : Config := ⟨some K₂, some (",".intercalate (before ++ K₁ :: after)), production'⟩
    (Readable cipher lossy h h' c c' iv text ↔ ∀ k, (served h c).current = .ok k → k ∈ (served h' c').keys) ∧
      (trim K₁ ≠ "" → trim K₂ ≠ "" → Distinct h c → Distinct h' c' →
        (Readable cipher lossy h h' c c' iv text ↔ ',' ∉ K₁.toList ∨ trim K₁ = trim K₂)) ∧
      (trim K₁ ≠ "" → '|' ∉ (trim K₁).toList → (∀ d ∈ h, '|' ∉ d.primary.toList) → Distinct h c) ∧
      (trim K₂ ≠ "" → '|' ∉ (trim K₂).toList → (∀ d ∈ h', '|' ∉ d.primary.toList) → Distinct h' c') := by
  intro c c'
  have hiff := readable_iff cipher lossy h h' c c' iv.2 text
  refine ⟨hiff, fun hK₁ hK₂ hd hd' => hiff.trans ?_, @distinct_of_bar h c, @distinct_of_bar h' c'⟩
  have hc := keys_of_primary (c := c) hK₁
  have hc' := keys_of_primary (c := c') hK₂
  have hcurrent : (served h c).current = .ok (trim K₁) := current_of_keys ((served_keys hd).trans hc.2)
  rw [hcurrent, served_keys hd', hc'.2]
  simp only [Except.ok.injEq, forall_eq', List.mem_cons]
  rw [listed_iff rfl hK₁, or_comm]
  rfl

end Rotation

section Instances

def code : List UInt8 → List UInt8
  | [] => [0]
  | b :: key => 1 :: b :: code key

def decode : List UInt8 → List UInt8 → Option (List UInt8)
  | [], 0 :: text => some text
  | b :: key, 1 :: b' :: text => if b = b' then decode key text else none
  | _, _ => none

theorem decode_code (key text : List UInt8) : decode key (code key ++ text) = some text := by
  induction key with
  | nil => rfl
  | cons b key ih => exact (if_pos rfl).trans ih

theorem decode_code_other {key key' : List UInt8} (h : key' ≠ key) (text : List UInt8) :
    decode key' (code key ++ text) = none := by
  induction key generalizing key' with
  | nil =>
      cases key' with
      | nil => exact absurd rfl h
      | cons b key' => rfl
  | cons b key ih =>
      cases key' with
      | nil => rfl
      | cons b' key' =>
          change (if b' = b then decode key' (code key ++ text) else none) = none
          split_ifs with hb
          · exact ih fun he => h (by rw [hb, he])
          · rfl

def tagged : Cipher (List UInt8) where
  deriveKey := utf8
  deriveKey_injective := fun a b h => by
    have := congrArg (fun l : List UInt8 => String.fromUTF8? ⟨l.toArray⟩) h
    simpa only [fromUTF8?_utf8, Option.some.injEq] using this
  encrypt key _ text := (List.replicate 16 0, code key ++ text)
  decrypt key _ _ ciphertext := decode key ciphertext
  tag_length _ _ _ := List.length_replicate
  decrypt_same key _ text := decode_code key text
  decrypt_other _ _ _ text h := decode_code_other h text

/-- A key with a comma is cut in the list; and the ring of another configuration, joined to the same text, answers for
the one whose previous key has a bar. -/
theorem comma_unreadable :
    ¬ Readable tagged (fun _ => "") [] [] ⟨some "one,two", none, true⟩ ⟨some "three", some "one,two", true⟩ (List.replicate 12 0) "secret" ∧
      ¬ Readable tagged (fun _ => "") [] [⟨some "new|first", some "second", true⟩] ⟨some "first|second", none, true⟩
        ⟨some "new", some "first|second", true⟩ (List.replicate 12 0) "secret" := by
  constructor
  · rw [readable_iff tagged _ [] [] _ _ (by rfl)]
    intro h
    have := h "one,two" (by decide)
    revert this
    decide
  · rw [readable_iff tagged _ [] _ _ _ (by rfl)]
    intro h
    have := h "first|second" (by decide)
    revert this
    decide

end Instances

end Yeah.Secrets
