import PlanRunner.Provider.Factory

/-!
# PlanRunner — a checked factory has a client for every task

The providers stand in three lists: those that need a key, those on a machine of one's
own, and those with an address. A provider that the check of a tier lets through and that
no client can be made for would fail in the middle of a run. There is none.

* `checkTier_eq_ok_iff` — what the check of a tier asks for (`TierConfig.Usable`);
* `Factory.create_eq_ok_iff`, `Factory.create_eq_error_iff` — the check of all tiers and
  what it fails with;
* `Provider.addressed_of_known` — the three lists agree;
* `buildClient_eq_error_iff` — a client is refused by the check of its tier only;
* `Factory.client_of_create` — the clients of a checked factory.
-/

namespace PlanRunner

-- ---------------------------------------------------------------------------
-- What the check of a tier asks for.
-- ---------------------------------------------------------------------------

/-- A provider that is supported. -/
def Provider.Known (provider : String) : Prop :=
  provider ∈ Provider.keyed ∨ provider ∈ Provider.selfHosted

/-- What the check of a tier asks for. -/
structure TierConfig.Usable (t : TierConfig) : Prop where
  known : Provider.Known t.provider
  keyed : t.provider ∈ Provider.keyed → t.hasUsableKey = true
  addressed : t.provider = "custom" → t.baseUrl.isSome = true

namespace Tier

/-- The complaint about a provider that is not supported. -/
def unsupported (tier : Tier) (provider : String) : RunError :=
  .config s!"llm.{tier.name}: unsupported provider '{provider}'"

/-- The complaint about a provider in the cloud without a key. -/
def keyMissing (tier : Tier) (provider : String) : RunError :=
  .config (s!"llm.{tier.name}: provider '{provider}' requires an API key "
    ++ s!"(set llm.{tier.name}.api_key or LAYERFLOW_API_KEY)")

/-- The complaint about a provider that can be anywhere and has no address. -/
def addressMissing (tier : Tier) : RunError :=
  .config s!"llm.{tier.name}: provider 'custom' requires base_url"

/-- The complaint about a provider without an address, where a client is created. -/
def addressUnknown (tier : Tier) (provider : String) : RunError :=
  .config s!"llm.{tier.name}: no base_url for provider '{provider}'"

/-- The three tiers are all there are. -/
theorem mem_all (tier : Tier) : tier ∈ all := by
  cases tier <;> decide

end Tier

/-- The check of a tier by the conditions it looks at, one after the other. -/
theorem checkTier_cases (tier : Tier) (t : TierConfig) :
    (checkTier tier t = .error (tier.unsupported t.provider) ∧ ¬ Provider.Known t.provider) ∨
    (checkTier tier t = .error (tier.keyMissing t.provider) ∧ t.provider ∈ Provider.keyed ∧
      t.hasUsableKey = false) ∨
    (checkTier tier t = .error (tier.addressMissing) ∧ t.provider = "custom" ∧
      t.baseUrl = none) ∨
    (checkTier tier t = .ok () ∧ t.Usable) := by
  unfold checkTier
  -- the custom provider is the only one that has to bring its address
  by_cases hc : t.provider = "custom"
  · have hk : "custom" ∉ Provider.keyed := by decide
    have hs : "custom" ∈ Provider.selfHosted := by decide
    cases hb : t.baseUrl with
    | none =>
      refine .inr (.inr (.inl ⟨?_, hc, rfl⟩))
      simp [hc, hk, hs, Tier.addressMissing]
    | some url =>
      refine .inr (.inr (.inr ⟨by simp [hc, hk, hs], ?_⟩))
      exact ⟨.inr (hc ▸ hs), fun h => absurd (hc ▸ h) hk, fun _ => by rw [hb]; rfl⟩
  · by_cases hk : t.provider ∈ Provider.keyed
    · cases hu : t.hasUsableKey with
      | false => exact .inr (.inl ⟨by simp [hk, Tier.keyMissing], hk, rfl⟩)
      | true =>
        refine .inr (.inr (.inr ⟨by simp [hk, hc], ?_⟩))
        exact ⟨.inl hk, fun _ => hu, fun h => absurd h hc⟩
    · by_cases hs : t.provider ∈ Provider.selfHosted
      · refine .inr (.inr (.inr ⟨by simp [hk, hs, hc], ?_⟩))
        exact ⟨.inr hs, fun h => absurd h hk, fun h => absurd h hc⟩
      · exact .inl ⟨by simp [hk, hs, Tier.unsupported], fun h => h.elim hk hs⟩

/-- A tier passes its check when it is usable. -/
theorem checkTier_eq_ok_iff {tier : Tier} {t : TierConfig} :
    checkTier tier t = .ok () ↔ t.Usable := by
  obtain ⟨he, hn⟩ | ⟨he, hk, hu⟩ | ⟨he, hc, hb⟩ | ⟨he, hu⟩ := checkTier_cases tier t <;> rw [he]
  · exact iff_of_false nofun fun h => hn h.known
  · exact iff_of_false nofun fun h => by rw [h.keyed hk] at hu; cases hu
  · exact iff_of_false nofun fun h => by have := h.addressed hc; rw [hb] at this; cases this
  · exact iff_of_true rfl hu

-- ---------------------------------------------------------------------------
-- All tiers.
-- ---------------------------------------------------------------------------

/-- Tiers pass when each of them does. -/
theorem checkTiers_eq_ok_iff {m : ModelConfig} {tiers : List Tier} :
    checkTiers m tiers = .ok () ↔ ∀ tier ∈ tiers, (m.tier tier).Usable := by
  induction tiers with
  | nil => simp [checkTiers]
  | cons tier rest ih =>
    have hfirst : checkTier tier (m.tier tier) = .ok () ↔ (m.tier tier).Usable := checkTier_eq_ok_iff
    rw [checkTiers, List.forall_mem_cons, ← ih, ← hfirst]
    cases checkTier tier (m.tier tier) <;> simp

/-- The first tier that is not usable is the one that is complained about. -/
theorem checkTiers_eq_error_iff {m : ModelConfig} {tiers : List Tier} {e : RunError} :
    checkTiers m tiers = .error e ↔
      ∃ before tier after, tiers = before ++ tier :: after ∧
        (∀ b ∈ before, (m.tier b).Usable) ∧ checkTier tier (m.tier tier) = .error e := by
  -- the first tier fails, or it passes and the error comes from one behind it
  induction tiers with
  | nil => simp [checkTiers]
  | cons first rest ih =>
    rw [checkTiers]
    cases hfirst : checkTier first (m.tier first) with
    | error e' =>
      constructor
      · rintro ⟨⟩
        exact ⟨[], first, rest, rfl, nofun, hfirst⟩
      · rintro ⟨before, tier, after, hsplit, hbefore, herror⟩
        cases before with
        | nil =>
          obtain ⟨rfl, -⟩ := List.cons_eq_cons.mp hsplit
          exact hfirst.symm.trans herror
        | cons b before =>
          obtain ⟨rfl, -⟩ := List.cons_eq_cons.mp hsplit
          have hok : checkTier first (m.tier first) = .ok () :=
            checkTier_eq_ok_iff.mpr (hbefore first List.mem_cons_self)
          rw [hfirst] at hok
          cases hok
    | ok _ =>
      have husable := checkTier_eq_ok_iff.mp hfirst
      refine ih.trans ⟨?_, ?_⟩
      · rintro ⟨before, tier, after, rfl, hbefore, herror⟩
        exact ⟨first :: before, tier, after, rfl, List.forall_mem_cons.mpr ⟨husable, hbefore⟩, herror⟩
      · rintro ⟨before, tier, after, hsplit, hbefore, herror⟩
        cases before with
        | nil =>
          obtain ⟨rfl, -⟩ := List.cons_eq_cons.mp hsplit
          rw [hfirst] at herror
          cases herror
        | cons b before =>
          obtain ⟨-, rfl⟩ := List.cons_eq_cons.mp hsplit
          exact ⟨before, tier, after, rfl, (List.forall_mem_cons.mp hbefore).2, herror⟩

namespace Factory

/-- A factory is made when the timeout is set and every tier is usable. -/
theorem create_eq_ok_iff {models : ModelConfig} {routing : Routing} {f : Factory} :
    create models routing = .ok f ↔
      models.timeoutSecs ≠ 0 ∧ (∀ tier, (models.tier tier).Usable) ∧ f = ⟨models, routing⟩ := by
  have htiers : checkTiers models Tier.all = .ok () ↔ ∀ tier, (models.tier tier).Usable :=
    checkTiers_eq_ok_iff.trans (by simp only [Tier.mem_all, forall_const])
  unfold create
  by_cases h : models.timeoutSecs = 0
  · simp [h]
  · rw [if_neg h, ← htiers]
    cases checkTiers models Tier.all <;> simp [h, Except.map, eq_comm]

/-- A factory is refused for its time limit or for the first tier that is not usable. -/
theorem create_eq_error_iff {models : ModelConfig} {routing : Routing} {e : RunError} :
    create models routing = .error e ↔
      (models.timeoutSecs = 0 ∧ e = .config "llm.timeout_secs must be > 0") ∨
      (models.timeoutSecs ≠ 0 ∧ ∃ before tier after, Tier.all = before ++ tier :: after ∧
        (∀ b ∈ before, (models.tier b).Usable) ∧
        checkTier tier (models.tier tier) = .error e) := by
  unfold create
  by_cases h : models.timeoutSecs = 0
  · simp [h, eq_comm]
  · rw [if_neg h, ← checkTiers_eq_error_iff]
    cases checkTiers models Tier.all <;> simp [h, Except.map]

end Factory

-- ---------------------------------------------------------------------------
-- Clients.
-- ---------------------------------------------------------------------------

/-- Every supported provider has an address of its own, has one configured, or needs no
address at all. -/
theorem Provider.addressed_of_known {provider : String} (h : Provider.Known provider) :
    provider = Provider.Messages.name ∨ provider = "custom" ∨
      (Provider.defaultBaseUrl? provider).isSome = true := by
  have hall : ∀ p ∈ Provider.keyed ++ Provider.selfHosted,
      p = Provider.Messages.name ∨ p = "custom" ∨
        (Provider.defaultBaseUrl? p).isSome = true := by
    decide
  exact hall provider (List.mem_append.mpr h)

/-- A usable tier of the chat completions format has an address. -/
theorem TierConfig.Usable.exists_baseUrl {t : TierConfig} (h : t.Usable)
    (hp : t.provider ≠ Provider.Messages.name) :
    ∃ url, t.baseUrl.or (Provider.defaultBaseUrl? t.provider) = some url := by
  rw [← Option.isSome_iff_exists, Option.isSome_or, Bool.or_eq_true]
  obtain h' | h' | h' := Provider.addressed_of_known h.known
  · exact absurd h' hp
  · exact .inl (h.addressed h')
  · exact .inr h'

/-- A client that says of itself what its tier says. -/
structure Client.Serves {σ : Type} (c : Client σ) (t : TierConfig) : Prop where
  provider : c.provider = t.provider
  model : c.model = t.model
  contextLength : c.contextLength = t.contextLength

section
variable {σ : Type} {transport : Http.Transport σ} {tier : Tier} {t : TierConfig}

/-- A usable tier is given a client that serves it. -/
theorem buildClient_of_usable (transport : Http.Transport σ) (tier : Tier) (h : t.Usable) :
    ∃ c, buildClient transport tier t = .ok c ∧ c.Serves t := by
  rw [buildClient, checkTier_eq_ok_iff.mpr h]
  by_cases hp : t.provider = Provider.Messages.name
  · simp only [if_pos hp]
    exact ⟨_, rfl, hp.symm, rfl, rfl⟩
  · obtain ⟨url, hurl⟩ := h.exists_baseUrl hp
    simp only [if_neg hp, hurl]
    exact ⟨_, rfl, rfl, rfl, rfl⟩

/-- A client is refused for nothing that the check of its tier has not found out. -/
theorem buildClient_eq_error_iff {e : RunError} :
    buildClient transport tier t = .error e ↔ checkTier tier t = .error e := by
  cases hcheck : checkTier tier t with
  | error e' => rw [buildClient, hcheck]; simp
  | ok _ =>
    obtain ⟨c, hc, -⟩ := buildClient_of_usable transport tier (checkTier_eq_ok_iff.mp hcheck)
    rw [hc]
    simp

/-- No check of a tier complains about an unknown address, so no client does. -/
theorem buildClient_ne_addressUnknown :
    buildClient transport tier t ≠ .error (tier.addressUnknown t.provider) := by
  rw [Ne, buildClient_eq_error_iff]
  -- the wordings differ in the first letter after the name of the tier
  obtain ⟨he, -⟩ | ⟨he, -⟩ | ⟨he, -⟩ | ⟨he, -⟩ := checkTier_cases tier t <;>
    rw [he] <;> simp [Tier.unsupported, Tier.keyMissing, Tier.addressMissing,
      Tier.addressUnknown, toString, String.ext_iff]

end

/-- After the check no task is left without a client: every task gets one, and it is a
client of the tier that the routing gives the task, by its provider, its model and the
length of its context. A tier that passes its check has an address where one is needed,
and a provider without an address is never what is complained about. -/
theorem Factory.client_of_create {models : ModelConfig} {routing : Routing} {f : Factory}
    (h : Factory.create models routing = .ok f) :
    (∀ {σ : Type} (transport : Http.Transport σ) (task : Task),
      ∃ c, f.client transport task = .ok c ∧ c.Serves (models.tier (routing.tierFor task))) ∧
    (∀ (tier : Tier) (t : TierConfig), checkTier tier t = .ok () →
      t.provider ≠ Provider.Messages.name →
      ∃ url, t.baseUrl.or (Provider.defaultBaseUrl? t.provider) = some url) ∧
    ∀ {σ : Type} (transport : Http.Transport σ) (tier : Tier) (t : TierConfig),
      buildClient transport tier t ≠ .error (tier.addressUnknown t.provider) := by
  refine ⟨fun transport task => ?_, fun _ _ hcheck => (checkTier_eq_ok_iff.mp hcheck).exists_baseUrl,
    fun _ _ _ => buildClient_ne_addressUnknown⟩
  obtain ⟨-, husable, rfl⟩ := Factory.create_eq_ok_iff.mp h
  obtain ⟨c, hc, hserves⟩ := buildClient_of_usable transport (routing.tierFor task)
    (husable (routing.tierFor task))
  refine ⟨c.withTimeout task (models.timeoutSecs * 1000), ?_, ⟨hserves.1, hserves.2, hserves.3⟩⟩
  rw [Factory.client, Factory.clientOfTier, hc]
  rfl

/-- Three providers of different kinds: one of one's own machine, one that can be
anywhere and one in the cloud that takes messages. -/
def ModelConfig.assorted : ModelConfig where
  timeoutSecs := 5
  simple := ⟨"ollama", "small", 4000, none, none⟩
  medium := ⟨"custom", "own", 8000, some "http://localhost:9000", some ""⟩
  complex := ⟨"anthropic", "large", 200000, none, some "key"⟩
  routing := []

theorem Factory.client_of_create_assorted :
    ∃ f, Factory.create .assorted (Routing.empty.set .evaluation .complex) = .ok f ∧
      ∀ (transport : Http.Transport Unit), ∃ c, f.client transport .evaluation = .ok c ∧
        c.provider = "anthropic" ∧ c.model = "large" ∧ c.contextLength = 200000 := by
  have hcreate : Factory.create .assorted (Routing.empty.set .evaluation .complex) =
      .ok ⟨.assorted, Routing.empty.set .evaluation .complex⟩ := rfl
  refine ⟨_, hcreate, fun transport => ?_⟩
  obtain ⟨c, hc, hserves⟩ := (Factory.client_of_create hcreate).1 transport .evaluation
  exact ⟨c, hc, hserves.1, hserves.2, hserves.3⟩

end PlanRunner
