import PlanRunner.Config.Environment
import PlanRunner.Proofs.Provider.Factory

/-!
# PlanRunner — what a shared key does for a tier

The environment may have one key for all tiers. It goes to the tiers that have no key of
their own. A key that is configured and blank counts as one of their own here, and as
none in the check of the tier, which then asks for the key that the environment has.

* `checkTier_eq_keyMissing_iff`, `Factory.create_eq_keyMissing_iff` — who is asked for a key;
* `Config.apiKey_withEnvironment` — the key of a tier once the environment has been read;
* `Config.sharedKey_serves` — who is asked for a key although there is a shared one.
-/

namespace PlanRunner

-- ---------------------------------------------------------------------------
-- Who is asked for a key.
-- ---------------------------------------------------------------------------

/-- The request for a key names the tier and the provider. -/
theorem Tier.keyMissing_inj {tier other : Tier} {p q : String} :
    tier.keyMissing p = other.keyMissing q ↔ tier = other ∧ p = q := by
  cases tier <;> cases other <;> simp [Tier.keyMissing, Tier.name, toString, String.ext_iff]

/-- Complaints about providers and about keys are different. -/
theorem Tier.unsupported_ne_keyMissing {tier other : Tier} {p q : String} :
    tier.unsupported p ≠ other.keyMissing q := by
  cases tier <;> cases other <;>
    simp [Tier.unsupported, Tier.keyMissing, Tier.name, toString, String.ext_iff]

/-- The one wording ends in a letter, the other in a bracket. -/
theorem Tier.addressMissing_ne_keyMissing {tier other : Tier} {q : String} :
    tier.addressMissing ≠ other.keyMissing q := by
  intro h
  have hlast := congrArg (fun s => s.toList.getLast?) (RunError.config.inj h)
  simp only [String.toList_append, List.getLast?_append] at hlast
  simp [toString] at hlast

/-- A key is found missing exactly when the provider needs one and none is usable. -/
theorem checkTier_eq_keyMissing_iff {tier other : Tier} {t : TierConfig} {provider : String} :
    checkTier tier t = .error (other.keyMissing provider) ↔
      tier = other ∧ t.provider = provider ∧ t.provider ∈ Provider.keyed ∧
        t.hasUsableKey = false := by
  -- an unsupported provider, a missing key, a missing address, or a usable tier
  obtain ⟨he, hn⟩ | ⟨he, hk, hu⟩ | ⟨he, hc, -⟩ | ⟨he, hu⟩ := checkTier_cases tier t <;>
    rw [he]
  · refine iff_of_false (fun h => Tier.unsupported_ne_keyMissing (Except.error.inj h)) ?_
    exact fun h => hn (.inl h.2.2.1)
  · rw [Except.error.injEq, Tier.keyMissing_inj]
    exact ⟨fun h => ⟨h.1, h.2, hk, hu⟩, fun h => ⟨h.1, h.2.1⟩⟩
  · refine iff_of_false (fun h => Tier.addressMissing_ne_keyMissing (Except.error.inj h)) ?_
    exact fun h => absurd (hc ▸ h.2.2.1) (by decide)
  · refine iff_of_false nofun fun h => ?_
    rw [hu.keyed h.2.2.1] at h
    cases h.2.2.2

/-- A factory is refused for the key of a tier exactly if the tiers before it are usable and
it is one of a provider in the cloud without a key. -/
theorem Factory.create_eq_keyMissing_iff {models : ModelConfig} {routing : Routing} {tier : Tier}
    {provider : String} :
    Factory.create models routing = .error (tier.keyMissing provider) ↔
      models.timeoutSecs ≠ 0 ∧
      (∃ before after, Tier.all = before ++ tier :: after ∧
        ∀ b ∈ before, (models.tier b).Usable) ∧
      (models.tier tier).provider = provider ∧ (models.tier tier).provider ∈ Provider.keyed ∧
      (models.tier tier).hasUsableKey = false := by
  have htimeout : tier.keyMissing provider ≠ .config "llm.timeout_secs must be > 0" := by
    cases tier <;> simp [Tier.keyMissing, Tier.name, toString, String.ext_iff]
  rw [Factory.create_eq_error_iff]
  -- the first tier that is not usable is the one that lacks its key
  constructor
  · rintro (⟨-, h⟩ | ⟨ht, before, tier', after, hsplit, hbefore, herror⟩)
    · exact absurd h htimeout
    · obtain ⟨rfl, hp, hk, hu⟩ := checkTier_eq_keyMissing_iff.mp herror
      exact ⟨ht, ⟨before, after, hsplit, hbefore⟩, hp, hk, hu⟩
  · rintro ⟨ht, ⟨before, after, hsplit, hbefore⟩, h⟩
    exact .inr ⟨ht, before, tier, after, hsplit, hbefore,
      checkTier_eq_keyMissing_iff.mpr ⟨rfl, h⟩⟩

-- ---------------------------------------------------------------------------
-- The shared key.
-- ---------------------------------------------------------------------------

namespace Config

section
variable {c : Config} {lookup : String → Option String} {key : String}

/-- The environment sets each tier by itself. -/
theorem tier_withEnvironment (tier : Tier) :
    (c.withEnvironment lookup).models.tier tier =
      (c.models.tier tier).withEnvironment lookup tier := by
  rw [withEnvironment, ModelConfig.tier_mapTiers]

/-- A tier keeps a key of its own, whatever it says, and has the shared key otherwise. -/
theorem apiKey_withEnvironment (hkey : lookup "LAYERFLOW_API_KEY" = some key) (tier : Tier) :
    ((c.withEnvironment lookup).models.tier tier).apiKey =
      some ((c.models.tier tier).apiKey.getD key) := by
  rw [tier_withEnvironment, TierConfig.withEnvironment, sharedKey, hkey]
  cases (c.models.tier tier).apiKey <;> rfl

/-- With a shared key that says something a tier is without a usable key exactly if it has a
blank one of its own. -/
theorem hasUsableKey_withEnvironment (hkey : lookup "LAYERFLOW_API_KEY" = some key)
    (hnonblank : Text.isBlank key = false) (tier : Tier) :
    ((c.withEnvironment lookup).models.tier tier).hasUsableKey = false ↔
      ∃ own, (c.models.tier tier).apiKey = some own ∧ Text.isBlank own = true := by
  rw [TierConfig.hasUsableKey, apiKey_withEnvironment hkey]
  cases (c.models.tier tier).apiKey <;> simp [hnonblank]

end

/-- A shared key reaches every tier that has no key of its own, and every key of a tier's
own stays. A factory is then refused for a key exactly if the first tier that is not usable
is one of a provider in the cloud whose own key is blank. -/
theorem sharedKey_serves {c : Config} {lookup : String → Option String} {key : String}
    (hkey : lookup "LAYERFLOW_API_KEY" = some key) (hnonblank : Text.isBlank key = false)
    (routing : Routing) :
    (∀ tier, ((c.withEnvironment lookup).models.tier tier).apiKey =
      some ((c.models.tier tier).apiKey.getD key)) ∧
    ∀ tier provider,
      Factory.create (c.withEnvironment lookup).models routing =
          .error (tier.keyMissing provider) ↔
        c.models.timeoutSecs ≠ 0 ∧
        (∃ before after, Tier.all = before ++ tier :: after ∧
          ∀ b ∈ before, ((c.withEnvironment lookup).models.tier b).Usable) ∧
        ((c.withEnvironment lookup).models.tier tier).provider = provider ∧
        ((c.withEnvironment lookup).models.tier tier).provider ∈ Provider.keyed ∧
        ∃ own, (c.models.tier tier).apiKey = some own ∧ Text.isBlank own = true := by
  refine ⟨apiKey_withEnvironment hkey, fun tier provider => ?_⟩
  rw [Factory.create_eq_keyMissing_iff, hasUsableKey_withEnvironment hkey hnonblank]
  rfl

/-- The standard configuration with a key for the first tier. -/
def withSimpleKey (own : String) : Config :=
  let simple := { ModelConfig.standard.simple with apiKey := some own }
  { standard with models := { ModelConfig.standard with simple := simple } }

/-- An environment with nothing but a shared key. -/
def sharing (key : String) : String → Option String :=
  fun name => if name = "LAYERFLOW_API_KEY" then some key else none

theorem sharedKey_serves_standard :
    ((withSimpleKey " ").withEnvironment (sharing "k")).models.medium.apiKey = some "k" ∧
    Factory.create ((withSimpleKey " ").withEnvironment (sharing "k")).models .empty =
      .error (Tier.simple.keyMissing "openrouter") := by
  have hkey : sharing "k" "LAYERFLOW_API_KEY" = some "k" := rfl
  have h := sharedKey_serves (c := withSimpleKey " ") hkey rfl .empty
  refine ⟨h.1 .medium, (h.2 .simple "openrouter").mpr ⟨by decide, ⟨[], _, rfl, nofun⟩, ?_⟩⟩
  exact ⟨by decide +kernel, by decide +kernel, " ", rfl, rfl⟩

/-- A shared key does not keep every factory from being refused for a key: it does not reach
a tier whose own key is blank. -/
theorem not_sharedKey_reaches_every_tier :
    ¬ ∀ (c : Config) (lookup : String → Option String) (key : String) (routing : Routing),
        lookup "LAYERFLOW_API_KEY" = some key → Text.isBlank key = false →
        (∀ (tier : Tier) (provider : String),
          Factory.create (c.withEnvironment lookup).models routing ≠
            .error (tier.keyMissing provider)) ∧
        ∀ (tier : Tier) (own : String), (c.models.tier tier).apiKey = some own →
          Text.isBlank own = false →
          ((c.withEnvironment lookup).models.tier tier).apiKey = some own := by
  intro h
  refine (h (withSimpleKey "") (sharing "k") "k" .empty rfl rfl).1 .simple "openrouter" ?_
  refine Factory.create_eq_keyMissing_iff.mpr ⟨by decide, ⟨[], _, rfl, nofun⟩, ?_⟩
  exact ⟨by decide +kernel, by decide +kernel, rfl⟩

end Config

end PlanRunner
