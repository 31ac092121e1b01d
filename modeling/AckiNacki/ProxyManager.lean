import Mathlib.Data.Finset.Basic

/-!
The loop of `proxy_manager` (`proxy/src/proxy_manager/mod.rs`). Every iteration loads the proxy
config, reads the proxy list from the chain, and compares the list, as a set, with the urls of the
enabled outer sides of the config's connections. When they differ, it exits if the list names a
url for which the config has no outer side, and otherwise enables every outer side whose url is
listed, saves the config and reloads the proxy; then it sleeps and starts over.

The config store and the chain reader are not among the sources. A config is modelled by what the
loop reads and writes of it, the outer side of each connection in the order of
`connections.values()`; the connection names and every other field are left as the loop leaves
them. The loop is the only writer of the config file, so each iteration loads what the one before
saved.
-/

namespace AckiNacki.ProxyManager

structure Outer where
  url : String
  enabled : Bool
  deriving DecidableEq

structure Connection where
  outer : Option Outer
  deriving DecidableEq

/-- The proxy config, by the values of `config.connections`. -/
structure ProxyConfig where
  connections : List Connection
  deriving DecidableEq

def outerUrl (connection : Connection) : Option String :=
  connection.outer.map (·.url)

def enabledUrl (connection : Connection) : Option String :=
  match connection.outer with
  | some outer => if outer.enabled then some outer.url else none
  | none => none

def allOuters (config : ProxyConfig) : Finset String :=
  (config.connections.filterMap outerUrl).toFinset

def enabledOuters (config : ProxyConfig) : Finset String :=
  (config.connections.filterMap enabledUrl).toFinset

/-- The body of the loop over `connections.values_mut()`: enable the outer side when its url is
in the proxy set. -/
def enableIfListed (proxySet : Finset String) (connection : Connection) : Connection :=
  match connection.outer with
  | some outer =>
      if outer.url ∈ proxySet then { connection with outer := some { outer with enabled := true } }
      else connection
  | none => connection

def enableListed (proxySet : Finset String) (config : ProxyConfig) : ProxyConfig where
  connections := config.connections.map (enableIfListed proxySet)

inductive Iteration
  /-- The proxy set is the set of enabled outer urls: the loop only sleeps. -/
  | unchanged
  /-- `config.save` with this config, then `reload_proxy`. -/
  | updated (config : ProxyConfig)
  /-- The list names proxies the config has no credentials for: `exit(1)`. -/
  | exit
  deriving DecidableEq

/-- One iteration of the loop of `proxy_manager` on the loaded config and the proxy list read
from the chain. -/
def iteration (config : ProxyConfig) (proxyList : List String) : Iteration :=
  let proxySet := proxyList.toFinset
  if proxySet ≠ enabledOuters config then
    if proxySet \ allOuters config ≠ ∅ then .exit
    else .updated (enableListed proxySet config)
  else .unchanged

/-- The iterations of the loop with the proxy lists `proxyLists` read in turn, each loading the
config the one before saved; the loop ends at `exit`. -/
def run (config : ProxyConfig) : List (List String) → List Iteration
  | [] => []
  | proxyList :: proxyLists =>
      match iteration config proxyList with
      | .unchanged => .unchanged :: run config proxyLists
      | .updated saved => .updated saved :: run saved proxyLists
      | .exit => [.exit]

/-! ### What one iteration does to the outer urls -/

theorem mem_allOuters {config : ProxyConfig} {url : String} :
    url ∈ allOuters config ↔ ∃ connection ∈ config.connections, outerUrl connection = some url := by
  simp [allOuters]

theorem mem_enabledOuters {config : ProxyConfig} {url : String} :
    url ∈ enabledOuters config ↔
      ∃ connection ∈ config.connections, enabledUrl connection = some url := by
  simp [enabledOuters]

@[simp] theorem outerUrl_enableIfListed (proxySet : Finset String) (connection : Connection) :
    outerUrl (enableIfListed proxySet connection) = outerUrl connection := by
  rcases connection with ⟨_ | outer⟩
  · rfl
  · by_cases hlisted : outer.url ∈ proxySet <;> simp [outerUrl, enableIfListed, hlisted]

theorem enabledUrl_enableIfListed (proxySet : Finset String) (connection : Connection)
    (url : String) : enabledUrl (enableIfListed proxySet connection) = some url ↔
      enabledUrl connection = some url ∨ url ∈ proxySet ∧ outerUrl connection = some url := by
  rcases connection with ⟨_ | ⟨listedUrl, enabled⟩⟩
  · simp [enabledUrl, enableIfListed, outerUrl]
  · by_cases hlisted : listedUrl ∈ proxySet <;> cases enabled <;>
      simp [enabledUrl, enableIfListed, outerUrl, hlisted]
    · exact fun hurl => hurl ▸ hlisted
    · exact fun hmem hurl => hlisted (hurl ▸ hmem)

theorem allOuters_enableListed (proxySet : Finset String) (config : ProxyConfig) :
    allOuters (enableListed proxySet config) = allOuters config := by
  simp only [allOuters, enableListed, List.filterMap_map, Function.comp_def,
    outerUrl_enableIfListed]

/-- The update enables exactly the listed outer urls, and disables none. -/
theorem enabledOuters_enableListed (proxySet : Finset String) (config : ProxyConfig) :
    enabledOuters (enableListed proxySet config) =
      enabledOuters config ∪ (proxySet ∩ allOuters config) := by
  ext url
  simp only [mem_enabledOuters, enableListed, List.mem_map, Finset.mem_union, Finset.mem_inter,
    mem_allOuters]
  constructor
  · rintro ⟨_, ⟨connection, hmem, rfl⟩, henabled⟩
    rcases (enabledUrl_enableIfListed proxySet connection url).mp henabled with
      henabled | ⟨hlisted, houter⟩
    · exact .inl ⟨connection, hmem, henabled⟩
    · exact .inr ⟨hlisted, connection, hmem, houter⟩
  · rintro (⟨connection, hmem, henabled⟩ | ⟨hlisted, connection, hmem, houter⟩)
    · exact ⟨_, ⟨connection, hmem, rfl⟩,
        (enabledUrl_enableIfListed proxySet connection url).mpr (.inl henabled)⟩
    · exact ⟨_, ⟨connection, hmem, rfl⟩,
        (enabledUrl_enableIfListed proxySet connection url).mpr (.inr ⟨hlisted, houter⟩)⟩

/-! ### The loop -/

theorem iteration_eq_unchanged_iff (config : ProxyConfig) (proxyList : List String) :
    iteration config proxyList = .unchanged ↔ proxyList.toFinset = enabledOuters config := by
  by_cases hequal : proxyList.toFinset = enabledOuters config
  · simp [iteration, hequal]
  · simp only [iteration, ne_eq, hequal, not_false_eq_true, if_true, iff_false]
    split_ifs <;> simp

/-- An iteration whose proxy list names only outer urls of the config either finds the enabled
urls equal to the list, or saves the config with the listed urls enabled besides those enabled
already; the outer urls stay as they were. -/
theorem iteration_spec (config : ProxyConfig) (proxyList : List String)
    (hknown : ∀ url ∈ proxyList, url ∈ allOuters config) :
    (proxyList.toFinset = enabledOuters config ∧ iteration config proxyList = .unchanged) ∨
    (proxyList.toFinset ≠ enabledOuters config ∧
      iteration config proxyList = .updated (enableListed proxyList.toFinset config) ∧
      enabledOuters (enableListed proxyList.toFinset config) =
        enabledOuters config ∪ proxyList.toFinset ∧
      allOuters (enableListed proxyList.toFinset config) = allOuters config) := by
  have hsubset : proxyList.toFinset ⊆ allOuters config :=
    fun url h => hknown url (List.mem_toFinset.mp h)
  by_cases hequal : proxyList.toFinset = enabledOuters config
  · exact .inl ⟨hequal, (iteration_eq_unchanged_iff config proxyList).mpr hequal⟩
  · refine .inr ⟨hequal, ?_, ?_, allOuters_enableListed _ _⟩
    · have hcredentials : proxyList.toFinset \ allOuters config = ∅ :=
        Finset.sdiff_eq_empty_iff_subset.mpr hsubset
      simp [iteration, hequal, hcredentials]
    · rw [enabledOuters_enableListed, Finset.inter_eq_left.mpr hsubset]

/-- After an iteration that saved the config, the next iteration with the same list leaves the
config alone exactly when the list still names every url that was enabled before. -/
theorem iteration_saved_fixpoint_iff (config : ProxyConfig) (proxyList : List String)
    (hknown : ∀ url ∈ proxyList, url ∈ allOuters config) {saved : ProxyConfig}
    (hsaved : iteration config proxyList = .updated saved) :
    iteration saved proxyList = .unchanged ↔ enabledOuters config ⊆ proxyList.toFinset := by
  rcases iteration_spec config proxyList hknown with
    ⟨-, hunchanged⟩ | ⟨-, hupdated, henabled, -⟩
  · rw [hunchanged] at hsaved
    cases hsaved
  · rw [hupdated, Iteration.updated.injEq] at hsaved
    rw [iteration_eq_unchanged_iff, ← hsaved, henabled, eq_comm]
    exact Finset.union_eq_right

/-- Outer urls `a`, enabled, and `b`, disabled, and the list `[b]`: the saved config is not a
fixpoint, as `a` stays enabled. -/
theorem iteration_saved_fixpoint_iff_dropped :
    let config : ProxyConfig := ⟨[⟨some ⟨"a", true⟩⟩, ⟨some ⟨"b", false⟩⟩]⟩
    let saved : ProxyConfig := ⟨[⟨some ⟨"a", true⟩⟩, ⟨some ⟨"b", true⟩⟩]⟩
    ((∀ url ∈ ["b"], url ∈ allOuters config) ∧ iteration config ["b"] = .updated saved) ∧
      (iteration saved ["b"] = .unchanged ↔ enabledOuters config ⊆ ["b"].toFinset) := by
  intro config saved
  have hknown : ∀ url ∈ ["b"], url ∈ allOuters config := by decide
  have hsaved : iteration config ["b"] = .updated saved := by decide
  exact ⟨⟨hknown, hsaved⟩, iteration_saved_fixpoint_iff config ["b"] hknown hsaved⟩

/-- An enabled url that every list read leaves out keeps the loop saving the config and
reloading the proxy at every iteration, while the lists name only outer urls of the config. -/
theorem run_reloads_while_removed (url : String) :
    ∀ (proxyLists : List (List String)) (config : ProxyConfig), url ∈ enabledOuters config →
      (∀ proxyList ∈ proxyLists,
        url ∉ proxyList ∧ ∀ listed ∈ proxyList, listed ∈ allOuters config) →
      (run config proxyLists).length = proxyLists.length ∧
        ∀ outcome ∈ run config proxyLists, ∃ saved, outcome = .updated saved
  | [], _, _, _ => by simp [run]
  | proxyList :: proxyLists, config, henabled, hlists => by
      obtain ⟨hmissing, hknown⟩ := hlists proxyList (List.mem_cons_self _ _)
      rcases iteration_spec config proxyList hknown with
        ⟨hequal, -⟩ | ⟨-, hupdated, henabledSaved, hall⟩
      · rw [← hequal, List.mem_toFinset] at henabled
        exact absurd henabled hmissing
      · have hrest := run_reloads_while_removed url proxyLists _
          (henabledSaved ▸ Finset.mem_union_left _ henabled) fun later hlater =>
            ⟨(hlists later (List.mem_cons_of_mem _ hlater)).1,
              hall ▸ (hlists later (List.mem_cons_of_mem _ hlater)).2⟩
        simp only [run, hupdated, List.length_cons, List.mem_cons, forall_eq_or_imp]
        exact ⟨congrArg (· + 1) hrest.1, ⟨_, rfl⟩, hrest.2⟩

/-- The enabled url `a` left out of two lists `[b]` in turn. -/
theorem run_reloads_while_removed_twice :
    let config : ProxyConfig := ⟨[⟨some ⟨"a", true⟩⟩, ⟨some ⟨"b", false⟩⟩]⟩
    ("a" ∈ enabledOuters config ∧
      ∀ proxyList ∈ [["b"], ["b"]], "a" ∉ proxyList ∧ ∀ listed ∈ proxyList,
        listed ∈ allOuters config) ∧
      (run config [["b"], ["b"]]).length = [["b"], ["b"]].length ∧
        ∀ outcome ∈ run config [["b"], ["b"]], ∃ saved, outcome = .updated saved := by
  intro config
  have henabled : "a" ∈ enabledOuters config := by decide
  have hlists : ∀ proxyList ∈ [["b"], ["b"]], "a" ∉ proxyList ∧ ∀ listed ∈ proxyList,
      listed ∈ allOuters config := by decide
  exact ⟨⟨henabled, hlists⟩, run_reloads_while_removed "a" _ config henabled hlists⟩

/-- Outer urls `a`, enabled, and `b`, disabled, and a proxy list that drops `a` and adds `b`: the
first iteration enables `b` and leaves `a` enabled, so the enabled urls `{a, b}` never equal the
list `{b}`, and every iteration with that list saves the config and reloads the proxy again. -/
theorem proxyManager_reloads_without_fixpoint :
    let config : ProxyConfig := ⟨[⟨some ⟨"a", true⟩⟩, ⟨some ⟨"b", false⟩⟩]⟩
    let saved : ProxyConfig := ⟨[⟨some ⟨"a", true⟩⟩, ⟨some ⟨"b", true⟩⟩]⟩
    (∀ url ∈ ["b"], url ∈ allOuters config) ∧ iteration config ["b"] = .updated saved ∧
      enabledOuters saved ≠ ["b"].toFinset ∧ iteration saved ["b"] = .updated saved ∧
      run config [["b"], ["b"], ["b"]] = [.updated saved, .updated saved, .updated saved] := by
  decide

end AckiNacki.ProxyManager
