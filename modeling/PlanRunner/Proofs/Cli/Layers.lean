import PlanRunner.Cli.Program
import PlanRunner.Proofs.Run.Ledger

/-!
# PlanRunner — the layers of a call of the program

A call of the program has the layers that are built in and those behind the configured
endpoints. An endpoint may have the name of a layer that is built in and then replaces it, so
the report of the layers takes the number of endpoints off the number of all layers. That this
leaves the number of layers built in that are still there rests on a check made elsewhere: a
configuration with two endpoints of one name is refused.

* `Registry.Sorted` — names in order and none twice, kept by every addition;
* `Registry.joined` — a registry that endpoints of distinct names have been added to;
* `endpointComplaint?_eq_none_iff`, `Config.validate_eq_ok_iff` — what the check asks for;
* `Cli.Caller.layers_counted` — the layers of a call and the report of them.
-/

namespace PlanRunner

-- ---------------------------------------------------------------------------
-- Registries.
-- ---------------------------------------------------------------------------

namespace Registry

section
variable {σ : Type} {transport : Http.Transport σ} {r : Registry σ} {endpoints : List Endpoint}
  {name : String}

/-- The names are in order, and none is there twice. -/
def Sorted (r : Registry σ) : Prop := IdSet.Sorted r.names

/-- Registering a layer keeps the names sorted. -/
theorem Sorted.register (hr : r.Sorted) (name : String) (layer : Layer σ) :
    (r.register name layer).Sorted :=
  SortedFields.insertField hr name layer

/-- Registering a layer adds its name. -/
theorem mem_names_register {other : String} {layer : Layer σ} :
    name ∈ (r.register other layer).names ↔ name = other ∨ name ∈ r.names :=
  mem_map_fst_insertField

theorem names_builtin : (builtin : Registry σ).names = ["echo", "math", "text"] := rfl

theorem sorted_builtin : (builtin : Registry σ).Sorted := by
  have hempty : (empty : Registry σ).Sorted := List.Pairwise.nil
  exact ((hempty.register _ _).register _ _).register _ _

/-- Remote layers are registered one after the other. -/
theorem registerRemote_cons (e : Endpoint) :
    r.registerRemote transport (e :: endpoints) =
      (r.register e.name (e.layer transport)).registerRemote transport endpoints := rfl

/-- Registering remote layers keeps the names sorted. -/
theorem Sorted.registerRemote (hr : r.Sorted) : (r.registerRemote transport endpoints).Sorted := by
  induction endpoints generalizing r with
  | nil => exact hr
  | cons e rest ih => exact ih (hr.register e.name (e.layer transport))

/-- The names are those that were there and those of the endpoints. -/
theorem mem_names_registerRemote : name ∈ (r.registerRemote transport endpoints).names ↔
    name ∈ r.names ∨ name ∈ endpoints.map Endpoint.name := by
  induction endpoints generalizing r with
  | nil => exact (or_iff_left List.not_mem_nil).symm
  | cons e rest ih =>
    rw [registerRemote_cons, ih, mem_names_register, List.map_cons, List.mem_cons, or_assoc]
    exact or_left_comm

/-- A layer whose name no endpoint has stays. -/
theorem get?_registerRemote_of_notMem (h : name ∉ endpoints.map Endpoint.name) :
    (r.registerRemote transport endpoints).get? name = r.get? name := by
  induction endpoints generalizing r with
  | nil => rfl
  | cons e rest ih =>
    rw [List.map_cons, List.mem_cons, not_or] at h
    rw [registerRemote_cons, ih h.2, get?_register_ne r (e.layer transport) h.1]

/-- The layer of an endpoint is there if no later endpoint has its name. -/
theorem get?_registerRemote (hd : (endpoints.map Endpoint.name).Nodup) {e : Endpoint}
    (he : e ∈ endpoints) :
    (r.registerRemote transport endpoints).get? e.name = some (e.layer transport) := by
  induction endpoints generalizing r with
  | nil => cases he
  | cons first rest ih =>
    obtain ⟨hfirst, hd⟩ := List.nodup_cons.mp hd
    rw [registerRemote_cons]
    rcases List.mem_cons.mp he with rfl | he
    · rw [get?_registerRemote_of_notMem hfirst, get?_register_self]
    · exact ih hd he

/-- The layers of a registry that no endpoint replaces. -/
def remaining (r : Registry σ) (endpoints : List Endpoint) : List String :=
  r.names.filter fun name => name ∉ endpoints.map Endpoint.name

/-- What remains are the layers whose names no endpoint takes. -/
theorem mem_remaining :
    name ∈ r.remaining endpoints ↔ name ∈ r.names ∧ name ∉ endpoints.map Endpoint.name := by
  rw [remaining, List.mem_filter, decide_eq_true_eq]

/-- The names are those of the endpoints and the layers that remain. -/
theorem names_registerRemote_perm (hr : r.Sorted) (hd : (endpoints.map Endpoint.name).Nodup) :
    (r.registerRemote transport endpoints).names.Perm
      (endpoints.map Endpoint.name ++ r.remaining endpoints) := by
  have happart : (endpoints.map Endpoint.name).Disjoint (r.remaining endpoints) :=
    fun _ hname hmem => (mem_remaining.mp hmem).2 hname
  have hremaining : (r.remaining endpoints).Nodup := hr.nodup.filter _
  refine (List.perm_ext_iff_of_nodup hr.registerRemote.nodup
    (hd.append hremaining happart)).mpr fun name => ?_
  rw [mem_names_registerRemote, List.mem_append, mem_remaining]
  tauto

/-- The layers are the remote ones and those that remain. -/
theorem size_registerRemote (hr : r.Sorted) (hd : (endpoints.map Endpoint.name).Nodup) :
    (r.registerRemote transport endpoints).size = endpoints.length + (r.remaining endpoints).length :=
  calc (r.registerRemote transport endpoints).size
    _ = (r.registerRemote transport endpoints).names.length := (List.length_map _).symm
    _ = (endpoints.map Endpoint.name ++ r.remaining endpoints).length :=
      (names_registerRemote_perm hr hd).length_eq
    _ = endpoints.length + (r.remaining endpoints).length := by
      rw [List.length_append, List.length_map]

/-- The layers are described in the order of their names. -/
theorem map_name_describe (r : Registry σ) : r.describe.map LayerInfo.name = r.names :=
  List.map_map

/-- Each layer is described with its functions. -/
theorem mem_describe (hr : r.Sorted) {layer : Layer σ} (h : r.get? name = some layer) :
    ⟨name, layer.description, layer.functions⟩ ∈ r.describe :=
  List.mem_map.mpr ⟨(name, layer), (field?_eq_some_iff hr).mp h, rfl⟩

/-- A registered layer is the one that is called. -/
theorem invoke_of_get? {layer : Layer σ} (h : r.get? name = some layer) (function : String)
    (args : Value) (world : σ) : r.invoke name function args world = layer.invoke function args world := by
  rw [invoke, h]

/-- A registry `s` after endpoints of distinct names have been added to `r`. -/
structure Joined (transport : Http.Transport σ) (r : Registry σ) (endpoints : List Endpoint)
    (s : Registry σ) : Prop where
  mem_names_iff : ∀ name, name ∈ s.names ↔ name ∈ r.names ∨ name ∈ endpoints.map Endpoint.name
  sorted : s.names.Pairwise (· < ·)
  described : s.describe.map LayerInfo.name = s.names
  /-- So the number of endpoints can be taken off the number of layers. -/
  length_le : endpoints.length ≤ s.size
  size_sub : s.size - endpoints.length = (r.remaining endpoints).length
  /-- The layer of an endpoint is the one that is called and described under its name. -/
  invoke_eq : ∀ e ∈ endpoints, ∀ function args world,
    s.invoke e.name function args world = e.call transport function args world
  mem_describe : ∀ e ∈ endpoints, ⟨e.name, e.description, e.functions⟩ ∈ s.describe
  get?_eq : ∀ name ∈ r.remaining endpoints, s.get? name = r.get? name

/-- Endpoints with distinct names join the layers there are, and replace those with their names. -/
theorem joined (hr : r.Sorted) (hd : (endpoints.map Endpoint.name).Nodup) :
    Joined transport r endpoints (r.registerRemote transport endpoints) where
  mem_names_iff _ := mem_names_registerRemote
  sorted := hr.registerRemote
  described := map_name_describe _
  length_le := by
    rw [size_registerRemote hr hd]
    exact Nat.le_add_right _ _
  size_sub := by rw [size_registerRemote hr hd, Nat.add_sub_cancel_left]
  invoke_eq _ he := invoke_of_get? (get?_registerRemote hd he)
  mem_describe _ he := mem_describe hr.registerRemote (get?_registerRemote hd he)
  get?_eq _ hname := get?_registerRemote_of_notMem (mem_remaining.mp hname).2

end

end Registry

-- ---------------------------------------------------------------------------
-- The check of a configuration.
-- ---------------------------------------------------------------------------

/-- Nothing is wrong with endpoints that have names and addresses, and no name twice. -/
theorem endpointComplaint?_eq_none_iff {seen : List String} {endpoints : List Endpoint} :
    endpointComplaint? seen endpoints = none ↔
      (∀ e ∈ endpoints, Text.isBlank e.name = false ∧ isHttpUrl e.url = true ∧ e.name ∉ seen) ∧
      (endpoints.map Endpoint.name).Nodup := by
  -- each name is compared with those before it, so the induction carries the names that were seen
  induction endpoints generalizing seen with
  | nil => simp [endpointComplaint?]
  | cons e rest ih =>
    have hnames : e.name ∉ rest.map Endpoint.name ↔ ∀ f ∈ rest, f.name ≠ e.name := by
      simp [List.mem_map]
    rw [endpointComplaint?, List.forall_mem_cons, List.map_cons, List.nodup_cons, hnames]
    by_cases hblank : Text.isBlank e.name = true
    · simp [hblank]
    by_cases hurl : isHttpUrl e.url = true
    · by_cases hseen : e.name ∈ seen
      · simp [hblank, hurl, hseen]
      · -- the first endpoint is fine, and its name is one that no later one may have
        rw [if_neg hblank, if_neg (by simpa using hurl), if_neg (by simpa using hseen), ih]
        simp only [List.mem_cons, not_or]
        constructor
        · rintro ⟨h, hd⟩
          refine ⟨⟨⟨Bool.eq_false_iff.mpr hblank, hurl, hseen⟩, fun f hf => ?_⟩, ?_, hd⟩
          · exact ⟨(h f hf).1, (h f hf).2.1, (h f hf).2.2.2⟩
          · exact fun f hf => (h f hf).2.2.1
        · rintro ⟨⟨-, h⟩, hnames, hd⟩
          exact ⟨fun f hf => ⟨(h f hf).1, (h f hf).2.1, hnames f hf, (h f hf).2.2⟩, hd⟩
    · simp [hblank, hurl]

/-- There is no first complaint when there is none. -/
theorem firstComplaint?_eq_none_iff {complaints : List (Option String)} :
    firstComplaint? complaints = none ↔ ∀ c ∈ complaints, c = none := by
  induction complaints with
  | nil => simp [firstComplaint?]
  | cons c rest ih =>
    cases c with
    | none => simp [firstComplaint?, ih]
    | some reason => simp [firstComplaint?]

namespace Config

variable {config : Config}

/-- A configuration is valid when nothing is complained about. -/
theorem validate_eq_ok_iff : config.validate = .ok () ↔ config.complaint? = none := by
  unfold validate
  cases config.complaint? <;> simp

/-- A configuration that passes the check has no two endpoints of one name. -/
theorem nodup_of_validate (h : config.validate = .ok ()) :
    (config.endpoints.map Endpoint.name).Nodup := by
  have hendpoints : endpointComplaint? [] config.endpoints = none :=
    firstComplaint?_eq_none_iff.mp (validate_eq_ok_iff.mp h) _ (by simp)
  exact (endpointComplaint?_eq_none_iff.mp hendpoints).2

/-- What is loaded has passed the check. -/
theorem validate_of_load {path : String} {found : Found} {lookup : String → Option String}
    (h : load path found lookup = .ok config) : config.validate = .ok () := by
  have hload : load path found lookup = (ofFile path found).bind fun c =>
      (c.withEnvironment lookup).validate.bind fun _ => .ok (c.withEnvironment lookup) := rfl
  rw [hload] at h
  -- whatever is loaded has passed the validation
  cases hfile : ofFile path found with
  | error e =>
    rw [hfile] at h
    cases h
  | ok c =>
    rw [hfile, Except.bind] at h
    cases hvalid : (c.withEnvironment lookup).validate with
    | error e =>
      rw [hvalid] at h
      cases h
    | ok _ =>
      rw [hvalid] at h
      obtain rfl := Except.ok.inj h
      exact hvalid

end Config

-- ---------------------------------------------------------------------------
-- The layers of a call.
-- ---------------------------------------------------------------------------

namespace Cli

/-- The first line of the report of the layers. -/
def Report.layerCount (here remote : Nat) : String :=
  s!"Registered layers ({here} local, {remote} remote)"

namespace Caller

variable {σ : Type}

/-- The layers of a valid configuration are the built-in ones, joined by its endpoints. -/
theorem registry_joined (c : Caller σ) {config : Config} (h : config.validate = .ok ()) :
    Registry.Joined c.transport .builtin config.endpoints (c.registry config) :=
  Registry.joined Registry.sorted_builtin (Config.nodup_of_validate h)

/-- **The layers are counted right.** The layers of a call are those built in and those of the
endpoints, by their names in order and each once, and an endpoint is called under its name even if
a layer built in has that name. Of the number of all layers the number of endpoints can be taken
off, which leaves the layers built in that no endpoint replaces. The report of the layers says
so under every configuration that can be loaded, because what is loaded has passed the check. -/
theorem layers_counted (c : Caller σ) :
    (Registry.builtin : Registry σ).names = ["echo", "math", "text"] ∧
    (∀ config : Config, config.validate = .ok () →
      Registry.Joined c.transport .builtin config.endpoints (c.registry config)) ∧
    ((∃ e, c.config = .error e ∧ c.listLayers = c.giveUp "" (.config e)) ∨
      ∃ config, c.config = .ok config ∧ config.validate = .ok () ∧
        c.listLayers = c.done 0 (Report.lines
          (Report.layerCount ((Registry.builtin : Registry σ).remaining config.endpoints).length
              config.endpoints.length :: Report.rule 17 ::
            ((c.registry config).describe.flatMap Report.layer ++ [""]))) "") := by
  refine ⟨Registry.names_builtin, fun _ h => c.registry_joined h, ?_⟩
  cases h : c.config with
  | error e => exact .inl ⟨e, rfl, by rw [listLayers, h]⟩
  | ok config =>
    have hvalid : config.validate = .ok () := Config.validate_of_load h
    -- the report counts what is left after the endpoints, and this is what remains
    have hcount : (c.registry config).describe.length - config.endpoints.length =
        ((Registry.builtin : Registry σ).remaining config.endpoints).length := by
      rw [← (c.registry_joined hvalid).size_sub, Registry.describe, List.length_map, Registry.size]
    refine .inr ⟨config, rfl, hvalid, ?_⟩
    rw [listLayers, h, ← hcount]
    rfl

/-- Two endpoints, one of which replaces a layer built in. -/
def replacing : Config :=
  { Config.standard with
    endpoints := [⟨"search", "http://127.0.0.1:9/x", 30, "Finds pages.", ["query"]⟩,
      ⟨"echo", "https://localhost/echo", 30, "", []⟩] }

/-- A call with nothing around it. -/
def alone : Caller Unit := ⟨"/home", "/", fun _ => none, .empty, .none Unit, ()⟩

theorem layers_counted_replacing :
    replacing.validate = .ok () ∧ 2 ≤ (alone.registry replacing).size ∧
      (alone.registry replacing).size - 2 = 2 ∧ "search" ∈ (alone.registry replacing).names := by
  have hvalid : replacing.validate = .ok () := Config.validate_eq_ok_iff.mpr (by decide +kernel)
  have hjoined := (layers_counted alone).2.1 replacing hvalid
  exact ⟨hvalid, hjoined.length_le, hjoined.size_sub,
    (hjoined.mem_names_iff "search").mpr (.inr (by decide))⟩

end Caller

end Cli

end PlanRunner
