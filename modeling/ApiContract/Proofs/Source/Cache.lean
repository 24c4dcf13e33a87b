import ApiContract.Proofs.Named
import ApiContract.Workspace

/-!
# A cache does not change what is loaded

A workspace that keeps fetched texts answers a series of requests as one that keeps none. The
invariant is that a kept text is what the remote has for its address, and holds more than blanks
(`Faithful`): every request preserves it, and under it a hit gives what a fetch would give.

The remote does not change between two requests. How long a fetch may take can differ from request
to request: it is only seen in the wording of a failure, and failures are not kept.

* **`fetch_of_fetch`** — a text that can be had at all is the same for every timeout.
* **`Faithful.load`** / **`Faithful.serve`** — what one request preserves.
* **`cache_is_transparent`** — the headline, over a whole series.
-/

namespace ApiContract

open Source (Answer Cache Remote Stored Url)

namespace Source

/-! ## Fetching at different timeouts -/

theorem resultOf_of_resultOf {url : String} (timeout : String) {answer : Answer} {text : String}
    (h : resultOf url timeout answer = .ok text) (other : String) :
    resultOf url other answer = .ok text := by
  cases answer with
  | response status body location => exact h
  | timedOut => cases h
  | unreachable cause => cases h

/-- Only a failure shows how long a fetch was allowed to take. -/
theorem ask_of_ask {remote : Remote} {url timeout text : String} {asked : Url} {hops : Nat}
    (h : (remote.ask url timeout asked hops).result = .ok text) (other : String) :
    (remote.ask url other asked hops).result = .ok text := by
  induction hops generalizing asked with
  | zero =>
    unfold Remote.ask at h ⊢
    split at h
    · split at h
      · cases h
      · next hstatus =>
        simp only [if_neg hstatus]
        exact resultOf_of_resultOf timeout h other
    · exact resultOf_of_resultOf timeout h other
  | succ hops ih =>
    unfold Remote.ask at h ⊢
    split at h
    · split at h
      · next hstatus =>
        simp only [hstatus]
        exact ih h
      · next hstatus =>
        simp only [if_neg hstatus]
        exact resultOf_of_resultOf timeout h other
    · exact resultOf_of_resultOf timeout h other

theorem fetch_of_fetch {remote : Remote} {url text : String} {timeout : Double}
    (h : (remote.fetch url timeout).result = .ok text) (other : Double) :
    (remote.fetch url other).result = .ok text := by
  unfold Remote.fetch at h ⊢
  split at h
  · next haskable =>
    rw [if_pos haskable]
    exact ask_of_ask h other.general
  · cases h

/-! ## What is kept -/

/-- Every text that is kept and has time left is what the remote has for its address, and holds more
than blanks. -/
def Faithful (remote : Remote) (kept : Named Stored) : Prop :=
  ∀ url stored, (url, stored) ∈ kept → stored.isFresh = true →
    (∀ timeout, (remote.fetch url timeout).result = .ok stored.text) ∧
      Text.isBlankText stored.text = false

variable {remote : Remote} {kept : Named Stored} {settings : Config.CacheSettings}

theorem Faithful.nil (remote : Remote) : Faithful remote [] := by
  intro url stored h
  cases h

/-- Forgetting texts is always right. -/
theorem Faithful.filter (h : Faithful remote kept) (p : String × Stored → Bool) :
    Faithful remote (kept.filter p) := by
  intro url stored hmem
  exact h url stored (List.mem_filter.mp hmem).1

/-- A text that is found is what a fetch would give. -/
theorem Faithful.get? (h : Faithful remote kept) {url text : String}
    (hget : Cache.get? ⟨settings, kept⟩ url = some text) (timeout : Double) :
    (remote.fetch url timeout).result = .ok text := by
  unfold Cache.get? at hget
  split at hget
  · obtain ⟨stored, hstored, rfl⟩ := Option.map_eq_some_iff.mp hget
    obtain ⟨hentry, hfresh⟩ := Option.filter_eq_some_iff.mp hstored
    exact (h url stored (Named.mem_of_get? hentry) hfresh).1 timeout
  · cases hget

/-- Blank texts are not kept, so keeping what was fetched is right. -/
theorem Faithful.set (h : Faithful remote kept) {url text : String} {timeout : Double}
    (hfetch : (remote.fetch url timeout).result = .ok text) :
    Faithful remote (Cache.set ⟨settings, kept⟩ url text).entries := by
  unfold Cache.set
  split
  · exact h
  · next hkeep =>
    have hblank : Text.isBlankText text = false := by
      simp only [Bool.or_eq_true, not_or] at hkeep
      simpa using hkeep.2
    have hfresh : Faithful remote (kept.filter (·.2.isFresh)) := h.filter _
    simp only
    split
    · exact hfresh.filter _
    · intro other stored hmem hstored
      rcases Named.mem_insert hmem with heq | hmem
      · cases heq
        exact ⟨fetch_of_fetch hfetch, hblank⟩
      · exact hfresh other stored hmem hstored

theorem fetchThrough_hit {cache : Cache} {patience : Patience} {url text : String}
    (h : cache.get? url = some text) :
    fetchThrough cache remote patience url = ⟨⟨[], .ok text⟩, cache, true⟩ := by
  unfold fetchThrough
  rw [h]

theorem fetchThrough_fetched {cache : Cache} {url text : String} {timeout : Double}
    (h : cache.get? url = none) (hfetch : (remote.fetch url timeout).result = .ok text) :
    fetchThrough cache remote { timeout } url =
      ⟨remote.fetch url timeout, cache.set url text, false⟩ := by
  have hwithin : remote.fetchWithin { timeout } url = remote.fetch url timeout := rfl
  unfold fetchThrough
  rw [h]
  simp only [hwithin, hfetch]

theorem fetchThrough_failed {cache : Cache} {url : String} {timeout : Double} {cause : Failure}
    (h : cache.get? url = none) (hfetch : (remote.fetch url timeout).result = .error cause) :
    fetchThrough cache remote { timeout } url = ⟨remote.fetch url timeout, cache, false⟩ := by
  have hwithin : remote.fetchWithin { timeout } url = remote.fetch url timeout := rfl
  unfold fetchThrough
  rw [h]
  simp only [hwithin, hfetch]

/-- **A fetch through a faithful cache gives what the remote gives, and leaves a faithful cache.** -/
theorem Faithful.fetchThrough (h : Faithful remote kept) (settings : Config.CacheSettings)
    (timeout : Double) (url : String) :
    let got := fetchThrough ⟨settings, kept⟩ remote { timeout } url
    got.fetched.result = (remote.fetch url timeout).result ∧ Faithful remote got.cache.entries := by
  cases hget : Cache.get? ⟨settings, kept⟩ url with
  | some text =>
    rw [fetchThrough_hit hget]
    exact ⟨(h.get? hget timeout).symm, h⟩
  | none =>
    cases hfetch : (remote.fetch url timeout).result with
    | ok text =>
      rw [fetchThrough_fetched hget hfetch]
      exact ⟨hfetch, h.set hfetch⟩
    | error cause =>
      rw [fetchThrough_failed hget hfetch]
      exact ⟨hfetch, h⟩

/-- A fetch that fails, or gives blanks, changes nothing. -/
theorem entries_fetchThrough_of_blank {timeout : Double} {url : String}
    (h : ∀ text, (remote.fetch url timeout).result = .ok text → Text.isBlankText text = true) :
    (fetchThrough ⟨settings, kept⟩ remote { timeout } url).cache.entries = kept := by
  cases hget : Cache.get? ⟨settings, kept⟩ url with
  | some text => rw [fetchThrough_hit hget]
  | none =>
    cases hfetch : (remote.fetch url timeout).result with
    | ok text =>
      have hblank := h text hfetch
      rw [fetchThrough_fetched hget hfetch]
      simp [Cache.set, hblank]
    | error cause => rw [fetchThrough_failed hget hfetch]

/-- A text with something in it is found again where it has time left. -/
theorem get?_set {cache : Cache} {url text : String} (henabled : cache.settings.enabled = true)
    (httl : 0 < cache.settings.ttlSeconds) (hblank : Text.isBlankText text = false) :
    (cache.set url text).get? url = some text := by
  have hset : cache.set url text = { cache with
      entries := Named.insert (cache.entries.filter (·.2.isFresh)) url ⟨text, true⟩ } := by
    simp [Cache.set, henabled, hblank, httl, show ¬ cache.settings.ttlSeconds < 0 by omega]
  rw [hset]
  simp [Cache.get?, henabled, Named.get?_insert_self]

/-- **A document that was fetched is not asked for again**, until it is forgotten. -/
theorem requested_after_fetch {cache : Cache} {url text : String} {timeout : Double}
    (henabled : cache.settings.enabled = true) (httl : 0 < cache.settings.ttlSeconds)
    (hmiss : cache.get? url = none) (hfetch : (remote.fetch url timeout).result = .ok text)
    (hblank : Text.isBlankText text = false) (patience : Patience) :
    (fetchThrough (fetchThrough cache remote { timeout } url).cache remote patience url).fetched =
      ⟨[], .ok text⟩ := by
  rw [fetchThrough_fetched hmiss hfetch, fetchThrough_hit (get?_set henabled httl hblank)]

/-- Without a cache the remote is asked every time. -/
theorem result_fetchThrough_disabled (remote : Remote) (kept : Named Stored) (ttl : Int)
    (timeout : Double) (url : String) :
    (fetchThrough ⟨⟨false, ttl⟩, kept⟩ remote { timeout } url).fetched.result =
      (remote.fetch url timeout).result := by
  have hget : Cache.get? ⟨⟨false, ttl⟩, kept⟩ url = none := rfl
  cases hfetch : (remote.fetch url timeout).result with
  | ok text => rw [fetchThrough_fetched hget hfetch, hfetch]
  | error cause => rw [fetchThrough_failed hget hfetch, hfetch]

end Source

/-! ## Series of requests -/

namespace Workspace

open Source (Faithful)

/-- The document under a name, and the workspace after it was asked for. -/
def load (w : Workspace) (settings : Config.CacheSettings) (timeout : Double) (name : String) :
    Except Failure Value × Workspace :=
  let got := w.retrieve settings { timeout } name
  (got.text >>= Source.documentOf name, got.after)

/-- What is asked of a workspace and its cache. -/
inductive Request where
  | load (name : String) (timeout : Double)
  | invalidate (url : String)
  | clear

/-- The workspace that keeps these texts. -/
def keeping (w : Workspace) (kept : Named Source.Stored) : Workspace := { w with kept }

/-- The answer to one request, if it has one, and the workspace after it. -/
def serve (w : Workspace) (settings : Config.CacheSettings) :
    Request → Option (Except Failure Value) × Workspace
  | .load name timeout =>
    let (document, after) := w.load settings timeout name
    (some document, after)
  | .invalidate url => (none, w.keeping (Cache.invalidate ⟨settings, w.kept⟩ url).entries)
  | .clear => (none, w.keeping (Cache.clear ⟨settings, w.kept⟩).entries)

/-- The answers to a series of requests, and the workspace after the last one. -/
def serveAll (w : Workspace) (settings : Config.CacheSettings) :
    List Request → List (Except Failure Value) × Workspace
  | [] => ([], w)
  | request :: rest =>
    let (answer, next) := w.serve settings request
    let (answers, last) := next.serveAll settings rest
    (answer.toList ++ answers, last)

/-- No cache at all. -/
def uncached : Config.CacheSettings := { enabled := false }

variable {w : Workspace} {settings : Config.CacheSettings} {name : String} {timeout : Double}

@[simp] theorem kept_keeping (kept : Named Source.Stored) : (w.keeping kept).kept = kept := rfl

@[simp] theorem remote_keeping (kept : Named Source.Stored) :
    (w.keeping kept).remote = w.remote := rfl

theorem retrieve_url {url : String} (h : Source.Origin.ofString name = .url url) (w : Workspace)
    (settings : Config.CacheSettings) (timeout : Double) :
    (w.retrieve settings { timeout } name).text =
        (Source.fetchThrough ⟨settings, w.kept⟩ w.remote { timeout } url).fetched.result ∧
      (w.retrieve settings { timeout } name).after =
        w.keeping (Source.fetchThrough ⟨settings, w.kept⟩ w.remote { timeout } url).cache.entries := by
  unfold retrieve
  rw [h]
  exact ⟨rfl, rfl⟩

/-- What does not come from the net does not go through the cache. -/
theorem retrieve_local (h : ∀ url, Source.Origin.ofString name ≠ .url url) (w : Workspace)
    (settings other : Config.CacheSettings) (timeout : Double) (kept : Named Source.Stored) :
    ((w.keeping kept).retrieve other { timeout } name).text =
        (w.retrieve settings { timeout } name).text ∧
      ((w.keeping kept).retrieve other { timeout } name).after =
        (w.retrieve settings { timeout } name).after.keeping kept ∧
      (w.retrieve settings { timeout } name).after.remote = w.remote ∧
      (w.retrieve settings { timeout } name).after.kept = w.kept := by
  unfold retrieve
  cases horigin : Source.Origin.ofString name with
  | url url => exact absurd horigin (h url)
  | standardInput => exact ⟨rfl, rfl, rfl, rfl⟩
  | file path => exact ⟨rfl, rfl, rfl, rfl⟩

/-- A document is the same whether its text was kept or fetched. What else a workspace holds does
not depend on the cache. -/
theorem load_of_faithful (h : Faithful w.remote w.kept) (settings : Config.CacheSettings)
    (timeout : Double) (name : String) (kept : Named Source.Stored) :
    (w.load settings timeout name).1 = ((w.keeping kept).load uncached timeout name).1 ∧
      ∃ later, ((w.keeping kept).load uncached timeout name).2 =
        (w.load settings timeout name).2.keeping later := by
  unfold load
  by_cases horigin : ∃ url, Source.Origin.ofString name = .url url
  · obtain ⟨url, hurl⟩ := horigin
    obtain ⟨htext, hafter⟩ := retrieve_url hurl w settings timeout
    obtain ⟨htext', hafter'⟩ := retrieve_url hurl (w.keeping kept) uncached timeout
    have hcached := (h.fetchThrough settings timeout url).1
    have hdirect := Source.result_fetchThrough_disabled w.remote kept uncached.ttlSeconds timeout url
    refine ⟨?_, _, by simp only [hafter', hafter]; rfl⟩
    simp only [htext, htext', hcached]
    exact congrArg (· >>= Source.documentOf name) hdirect.symm
  · obtain ⟨htext, hafter, -, -⟩ := retrieve_local (not_exists.mp horigin) w settings uncached timeout
      kept
    exact ⟨by simp only [htext], kept, hafter⟩

/-- A load asks the same remote afterwards, and keeps nothing but what that has. -/
theorem faithful_load (h : Faithful w.remote w.kept) (settings : Config.CacheSettings)
    (timeout : Double) (name : String) :
    (w.load settings timeout name).2.remote = w.remote ∧
      Faithful w.remote (w.load settings timeout name).2.kept := by
  unfold load
  by_cases horigin : ∃ url, Source.Origin.ofString name = .url url
  · obtain ⟨url, hurl⟩ := horigin
    have hafter := (retrieve_url hurl w settings timeout).2
    simp only [hafter, remote_keeping, kept_keeping, true_and]
    exact (h.fetchThrough settings timeout url).2
  · obtain ⟨-, -, hremote, hkept⟩ := retrieve_local (not_exists.mp horigin) w settings uncached timeout
      []
    simp only [hremote, hkept, true_and]
    exact h

/-- **One request.** The invariant is preserved. -/
theorem faithful_serve (h : Faithful w.remote w.kept) (settings : Config.CacheSettings)
    (request : Request) :
    (w.serve settings request).2.remote = w.remote ∧
      Faithful w.remote (w.serve settings request).2.kept := by
  cases request with
  | load name timeout => exact faithful_load h settings timeout name
  | invalidate url => exact ⟨rfl, h.filter _⟩
  | clear => exact ⟨rfl, Faithful.nil _⟩

/-- **One request.** Its answer does not depend on the cache, nor does the rest of the workspace. -/
theorem serve_of_faithful (h : Faithful w.remote w.kept) (settings : Config.CacheSettings)
    (kept : Named Source.Stored) (request : Request) :
    (w.serve settings request).1 = ((w.keeping kept).serve uncached request).1 ∧
      ∃ later, ((w.keeping kept).serve uncached request).2 =
        (w.serve settings request).2.keeping later := by
  cases request with
  | load name timeout =>
    obtain ⟨hanswer, later, hafter⟩ := load_of_faithful h settings timeout name kept
    exact ⟨congrArg some hanswer, later, hafter⟩
  | invalidate url => exact ⟨rfl, _, rfl⟩
  | clear => exact ⟨rfl, _, rfl⟩

theorem serveAll_cons (request : Request) (rest : List Request) :
    w.serveAll settings (request :: rest) =
      ((w.serve settings request).1.toList ++ ((w.serve settings request).2.serveAll settings rest).1,
        ((w.serve settings request).2.serveAll settings rest).2) := rfl

/-- **A series of requests**, by induction on it: the invariant is carried from request to request,
and the run without a cache may start with anything kept. -/
theorem serveAll_of_faithful (h : Faithful w.remote w.kept) (settings : Config.CacheSettings)
    (kept : Named Source.Stored) (requests : List Request) :
    (w.serveAll settings requests).1 = ((w.keeping kept).serveAll uncached requests).1 ∧
      Faithful w.remote (w.serveAll settings requests).2.kept := by
  induction requests generalizing w kept with
  | nil => exact ⟨rfl, h⟩
  | cons request rest ih =>
    obtain ⟨hanswer, later, hafter⟩ := serve_of_faithful h settings kept request
    obtain ⟨hremote, hnext⟩ := faithful_serve h settings request
    rw [← hremote] at hnext
    obtain ⟨hrest, hfaithful⟩ := ih hnext later
    rw [hremote] at hfaithful
    rw [serveAll_cons, serveAll_cons]
    refine ⟨?_, hfaithful⟩
    simp only
    rw [hanswer, hafter, hrest]

/-- A load that fails, or finds a blank text, keeps and forgets nothing. -/
theorem kept_load_of_blank
    (h : ∀ text, (w.retrieve uncached { timeout } name).text = .ok text →
      Text.isBlankText text = true) :
    (w.load settings timeout name).2.kept = w.kept := by
  unfold load
  by_cases horigin : ∃ url, Source.Origin.ofString name = .url url
  · obtain ⟨url, hurl⟩ := horigin
    have hafter := (retrieve_url hurl w settings timeout).2
    have htext := (retrieve_url hurl w uncached timeout).1
    simp only [hafter, kept_keeping]
    refine Source.entries_fetchThrough_of_blank fun text hfetch => h text ?_
    rw [htext]
    exact (Source.result_fetchThrough_disabled _ _ _ timeout url).trans hfetch
  · exact (retrieve_local (not_exists.mp horigin) w settings uncached timeout []).2.2.2

/-- **The cache is transparent.** Whatever documents are loaded, and whatever is forgotten in
between, every load gives the document or the failure that it gives without a cache. All that is kept
in the end is what the remote has, and a load that fails or finds a blank text leaves it as it is. -/
theorem cache_is_transparent (w : Workspace) (settings : Config.CacheSettings)
    (requests : List Request) :
    let start := w.keeping []
    let reached := (start.serveAll settings requests).2
    (start.serveAll settings requests).1 = (start.serveAll uncached requests).1 ∧
      Faithful w.remote reached.kept ∧
      ∀ timeout name,
        (∀ text, (reached.retrieve uncached { timeout } name).text = .ok text →
          Text.isBlankText text = true) →
        (reached.load settings timeout name).2.kept = reached.kept := by
  intro start reached
  have hstart : Faithful start.remote start.kept := Faithful.nil _
  obtain ⟨hanswers, hkept⟩ := serveAll_of_faithful hstart settings [] requests
  exact ⟨hanswers, hkept, fun timeout name h => kept_load_of_blank h⟩

end Workspace

end ApiContract
