import RatelimitFlex.Analysis.HotKeyRanking
import RatelimitFlex.Analysis.LabelEscapes
import RatelimitFlex.Library.StructuredFields
import RatelimitFlex.Program.MetricsText

/-!
# Scraping the text of the metrics

Whatever keys are hot, the text of the metrics is that of a few families of samples
(`metricsLines_eq`), and a scraper reads these families back from it: a key stays within its label,
and no series is there twice (`scraped_text`).
-/

set_option autoImplicit false

namespace RatelimitFlex

open Library Library.Exposition

/-! ## The families -/

namespace PrometheusAdapter

section Families

variable (number : ℚ → Text)

/-- A histogram with its buckets, its sum and its count. -/
def histogramFamily (name : Text) (doc : String) (buckets : List ℚ) (h : TextHistogram) :
    Family where
  name
  doc := units doc
  kind := .histogram
  samples :=
    (buckets.zipIdx.map fun e =>
        ⟨name ++ units "_bucket", [(units "le", number e.1)],
          number (h.counts.getD e.2 0 : ℕ)⟩) ++
      [⟨name ++ units "_bucket", [(units "le", units "+Inf")],
          number (h.counts.getD buckets.length 0 : ℕ)⟩,
        ⟨name ++ units "_sum", [], number h.sum⟩,
        ⟨name ++ units "_count", [], number h.count⟩]

/-- A metric with one sample. -/
def plainFamily (name : Text) (doc : String) (kind : MetricType) (value : Text) : Family :=
  ⟨name, units doc, kind, [⟨name, [], value⟩]⟩

/-- A gauge of the memory store. -/
def storeFamily (name : Text) (doc : String) (value : Text) : Family :=
  ⟨name, units doc, .gauge, [⟨name, [(units "store", units "memory")], value⟩]⟩

/-- A counter of requests for each outcome. -/
def requestsFamily (name : Text) (a : PrometheusAdapter Text) : Family where
  name
  doc := units "Total requests processed by the rate limiter"
  kind := .counter
  samples :=
    [⟨name, statusLabels "allowed" "none", number (a.textValue .allowed)⟩,
      ⟨name, statusLabels "blocked" "rate_limit", number (a.textValue (.blocked .rateLimit))⟩,
      ⟨name, statusLabels "blocked" "blocklist", number (a.textValue (.blocked .blocklist))⟩,
      ⟨name, statusLabels "blocked" "penalty", number (a.textValue (.blocked .penalty))⟩,
      ⟨name, statusLabels "blocked" "key_manager", number (a.textValue (.blocked .keyManager))⟩,
      ⟨name, statusLabels "blocked" "service_unavailable",
        number (a.textValue (.blocked .serviceUnavailable))⟩]

/-- The hot keys, under their own names. -/
def hotKeysFamily (name : Text) (hotKeys : List (HotKey Text)) : Family where
  name
  doc := units "Observed hits per hot key (top K)"
  kind := .gauge
  samples := hotKeys.map fun hk => ⟨name, [(units "key", hk.key)], number hk.hits⟩

def shieldFamilies (p : Text) (shield : ShieldFigures) : List Family :=
  [plainFamily (p ++ units "shield_blocked_keys")
      "Keys currently blocked in the in-memory shield cache" .gauge
      (number shield.blockedKeyCount),
    plainFamily (p ++ units "shield_store_calls_saved_total")
      "Store calls avoided by the in-memory shield (cumulative)" .gauge
      (number shield.storeCallsSaved),
    plainFamily (p ++ units "shield_total_keys_blocked")
      "Total keys that have been blocked in memory since startup" .gauge
      (number shield.totalKeysBlocked),
    plainFamily (p ++ units "shield_total_keys_expired")
      "Total keys removed due to block window expiry" .gauge (number shield.totalKeysExpired),
    plainFamily (p ++ units "shield_total_keys_evicted")
      "Total keys evicted due to maxBlockedKeys limit (LRU)" .gauge
      (number shield.totalKeysEvicted),
    plainFamily (p ++ units "shield_hit_rate")
      "Shield hit rate (storeCallsSaved / (storeCallsSaved + storeCalls))" .gauge
      (number shield.hitRate),
    plainFamily (p ++ units "shield_store_calls_total")
      "Store increment calls that passed through the shield (cumulative)" .gauge
      (number shield.storeCalls)]

def storeFamilies (p : Text) (store : StoreFigures) : List Family :=
  [storeFamily (p ++ units "store_active_keys")
      "Distinct keys tracked in the backing MemoryStore" (number store.activeKeys),
    storeFamily (p ++ units "store_total_evictions")
      "LRU evictions due to maxKeys on the backing MemoryStore (cumulative)"
      (number store.totalEvictions),
    storeFamily (p ++ units "store_max_keys")
      "Configured maxKeys cap on the backing MemoryStore (0 = unlimited)" (number store.maxKeys)]

/-- The hot keys of the last snapshot. -/
def hotKeys (a : PrometheusAdapter Text) : List (HotKey Text) :=
  (a.lastSnapshot.map MetricsSnapshot.hotKeys).getD []

/-- What the engine, the store and the last window have to say. -/
def engineFamilies (p : Text) (a : PrometheusAdapter Text) : List Family :=
  [requestsFamily number (p ++ units "requests_total") a,
    plainFamily (p ++ units "requests_skipped_total") "Requests skipped via skip()" .counter
      (number (a.textValue .skipped)),
    plainFamily (p ++ units "requests_allowlisted_total") "Requests matched allowlist" .counter
      (number (a.textValue .allowlisted)),
    histogramFamily number (p ++ units "middleware_duration_milliseconds")
      "Middleware / rate limiter handler duration in milliseconds" a.buckets a.textMw,
    histogramFamily number (p ++ units "store_duration_milliseconds")
      "Store increment (e.g. Redis) duration in milliseconds" a.buckets a.textSt,
    plainFamily (p ++ units "requests_per_second")
      "Estimated requests per second over the aggregation window" .gauge
      (number (((a.lastSnapshot.map MetricsSnapshot.window).map
        MetricsWindow.requestsPerSecond).getD 0)),
    plainFamily (p ++ units "block_rate") "Block rate (0–1) over the aggregation window" .gauge
      (number (((a.lastSnapshot.map MetricsSnapshot.window).map MetricsWindow.blockRate).getD 0)),
    hotKeysFamily number (p ++ units "hot_key_hits") a.hotKeys]

/-- All that the text shows. -/
def families (p : Text) (shield : Option ShieldFigures) (store : Option StoreFigures)
    (a : PrometheusAdapter Text) : List Family :=
  engineFamilies number p a ++ shieldFamilies number p (shield.getD {}) ++
    (store.map (storeFamilies number p)).getD []

end Families

/-! ## The text is theirs -/

/-- How numbers are written. -/
structure WritesNumbers (number : ℚ → Text) : Prop where
  value : ∀ q, isValue (number q)
  finite : ∀ q, number q ≠ units "+Inf"

/-- A number has nothing to escape. -/
theorem escapeValue_of_isValue {v : Text} (h : isValue v) : escapeValue v = v := by
  have hplain : ∀ u ∈ v, escapeUnit u = [u] := by
    intro u hu
    have hunit := List.all_eq_true.mp (Bool.and_eq_true_iff.mp h).2 u hu
    simp only [Bool.and_eq_true, bne_iff_ne] at hunit
    obtain ⟨⟨⟨-, hlineFeed⟩, hquote⟩, hbackslash⟩ := hunit
    rw [escapeUnit, if_neg hbackslash, if_neg hlineFeed, if_neg hquote]
  rw [escapeValue, List.flatMap_congr hplain, List.flatMap_singleton']

/-- The adapter escapes a label's value as the format asks. -/
theorem escapePrometheusLabelValue_eq_escapeValue (s : Text) :
    PrometheusLabel.escapePrometheusLabelValue s = escapeValue s :=
  PrometheusLabel.escapePrometheusLabelValue_eq s

/-- The two comment lines are those of the help and the type. -/
theorem commentLines_eq (name : Text) (doc : String) (kind : MetricType) :
    commentLines name doc kind =
      [Line.text (.help name (units doc)), Line.text (.type name kind)] := by
  have hspace : units " " = [space] := rfl
  simp only [commentLines, Line.text, hspace, List.append_assoc, List.cons_append,
    List.nil_append]

/-- A line without labels is the text of such a sample. -/
theorem plainLine_eq (name value : Text) : plainLine name value = Sample.text ⟨name, [], value⟩ :=
  List.append_assoc name (units " ") value

/-- A line with labels is the text of a sample whose values were escaped. -/
theorem labelledLine_eq (name : Text) {labels escaped : List (Text × Text)} (value : Text)
    (hne : labels ≠ []) (hlabels : labels.map (Prod.map id escapeValue) = escaped) :
    labelledLine name escaped value = Sample.text ⟨name, labels, value⟩ := by
  subst hlabels
  have hspace : units " " = [space] := rfl
  cases labels with
  | nil => exact absurd rfl hne
  | cons l ls =>
    simp only [labelledLine, Sample.text, hspace, List.append_assoc, List.cons_append,
      List.nil_append]

/-- The lines of a family, written. -/
theorem lines_family (name : Text) (doc : String) (kind : MetricType) (samples : List Sample) :
    (Family.mk name (units doc) kind samples).lines.map Line.text =
      commentLines name doc kind ++ samples.map Sample.text := by
  rw [commentLines_eq, Family.lines, List.map_cons, List.map_cons, List.map_map]
  rfl

/-- A family of one sample is its comments and its line. -/
theorem lines_plainFamily (name : Text) (doc : String) (kind : MetricType) (value : Text) :
    (plainFamily name doc kind value).lines.map Line.text =
      commentLines name doc kind ++ [plainLine name value] := by
  rw [plainFamily, lines_family, plainLine_eq]
  rfl

/-- So are the families of the store. -/
theorem lines_storeFamily (name : Text) (doc : String) (value : Text) :
    (storeFamily name doc value).lines.map Line.text = storeGaugeLines name doc value := by
  have hlabels : [(units "store", units "memory")].map (Prod.map id escapeValue) =
      [(units "store", units "memory")] := by decide
  rw [storeFamily, lines_family, storeGaugeLines,
    labelledLine_eq name value (List.cons_ne_nil _ _) hlabels]
  rfl

/-- The family of the requests is its comments and the four lines of its statuses. -/
theorem lines_requestsFamily (number : ℚ → Text) (name : Text) (a : PrometheusAdapter Text) :
    (requestsFamily number name a).lines.map Line.text =
      commentLines name "Total requests processed by the rate limiter" .counter ++
        [labelledLine name (statusLabels "allowed" "none") (number (a.textValue .allowed)),
          labelledLine name (statusLabels "blocked" "rate_limit")
            (number (a.textValue (.blocked .rateLimit))),
          labelledLine name (statusLabels "blocked" "blocklist")
            (number (a.textValue (.blocked .blocklist))),
          labelledLine name (statusLabels "blocked" "penalty")
            (number (a.textValue (.blocked .penalty))),
          labelledLine name (statusLabels "blocked" "key_manager")
            (number (a.textValue (.blocked .keyManager))),
          labelledLine name (statusLabels "blocked" "service_unavailable")
            (number (a.textValue (.blocked .serviceUnavailable)))] := by
  have hlabels : ∀ status reason value,
      (statusLabels status reason).map (Prod.map id escapeValue) = statusLabels status reason →
        labelledLine name (statusLabels status reason) value =
          Sample.text ⟨name, statusLabels status reason, value⟩ :=
    fun status reason value h => labelledLine_eq name value (List.cons_ne_nil _ _) h
  rw [requestsFamily, lines_family, hlabels _ _ _ (by decide), hlabels _ _ _ (by decide),
    hlabels _ _ _ (by decide), hlabels _ _ _ (by decide), hlabels _ _ _ (by decide),
    hlabels _ _ _ (by decide)]
  rfl

/-- The family of the hot keys is its comments and one line for each key. -/
theorem lines_hotKeysFamily (number : ℚ → Text) (name : Text) (hotKeys : List (HotKey Text)) :
    (hotKeysFamily number name hotKeys).lines.map Line.text =
      commentLines name "Observed hits per hot key (top K)" .gauge ++
        hotKeys.map (fun hk =>
          labelledLine name [(units "key", PrometheusLabel.escapePrometheusLabelValue hk.key)]
            (number hk.hits)) := by
  rw [hotKeysFamily, lines_family, List.map_map]
  refine congrArg _ (List.map_congr_left fun hk _ => ?_)
  rw [escapePrometheusLabelValue_eq_escapeValue]
  exact (labelledLine_eq name (number hk.hits) (List.cons_ne_nil _ _) rfl).symm

/-- The family of a histogram is its comments, its buckets, its sum and its count. -/
theorem lines_histogramFamily {number : ℚ → Text} (hnumber : WritesNumbers number) (name : Text)
    (doc : String) (buckets : List ℚ) (h : TextHistogram) :
    (histogramFamily number name doc buckets h).lines.map Line.text =
      commentLines name doc .histogram ++ histogramLines number name buckets h := by
  have hle : ∀ le, [(units "le", number le)].map (Prod.map id escapeValue) =
      [(units "le", number le)] := by
    intro le
    rw [List.map_singleton, Prod.map, escapeValue_of_isValue (hnumber.value le)]
    rfl
  have hinf : [(units "le", units "+Inf")].map (Prod.map id escapeValue) =
      [(units "le", units "+Inf")] := by decide
  rw [histogramFamily, lines_family, histogramLines, List.map_append, List.map_map,
    labelledLine_eq _ _ (List.cons_ne_nil _ _) hinf, plainLine_eq, plainLine_eq]
  refine congrArg _ (congrArg₂ _ (List.map_congr_left fun e _ => ?_) rfl)
  exact (labelledLine_eq _ _ (List.cons_ne_nil _ _) (hle e.1)).symm

/-- The families of the shield are the lines that its part of the text has. -/
theorem lines_shieldFamilies (number : ℚ → Text) (p : Text) (shield : ShieldFigures) :
    ((shieldFamilies number p shield).flatMap Family.lines).map Line.text =
      shieldLines number p shield := by
  simp only [shieldFamilies, shieldLines, gaugeLines, List.flatMap_cons, List.flatMap_nil,
    List.map_append, lines_plainFamily, List.append_nil, List.append_assoc]

/-- The families of the store are the lines that its part of the text has. -/
theorem lines_storeFamilies (number : ℚ → Text) (p : Text) (store : StoreFigures) :
    ((storeFamilies number p store).flatMap Family.lines).map Line.text =
      storeLines number p store := by
  simp only [storeFamilies, storeLines, List.flatMap_cons, List.flatMap_nil, List.map_append,
    lines_storeFamily, List.append_nil, List.append_assoc]

/-- All the lines are those of the families, one after the other. -/
theorem metricsLines_eq {number : ℚ → Text} (hnumber : WritesNumbers number) (p : Text)
    (shield : Option ShieldFigures) (store : Option StoreFigures) (a : PrometheusAdapter Text) :
    metricsLines number p shield store a =
      ((families number p shield store a).flatMap Family.lines).map Line.text := by
  have hstore : (((store.map (storeFamilies number p)).getD []).flatMap Family.lines).map
      Line.text = (store.map (storeLines number p)).getD [] := by
    cases store with
    | none => rfl
    | some store => exact lines_storeFamilies number p store
  rw [families, List.flatMap_append, List.flatMap_append, List.map_append, List.map_append,
    lines_shieldFamilies, hstore]
  simp only [metricsLines, engineFamilies, gaugeLines, hotKeys, List.flatMap_cons,
    List.flatMap_nil, List.map_append, lines_requestsFamily, lines_plainFamily,
    lines_histogramFamily hnumber, lines_hotKeysFamily, List.append_nil, List.append_assoc]

/-- **The exported text is the text of its families.** -/
theorem getMetricsText_eq {number : ℚ → Text} (hnumber : WritesNumbers number) (pre : Text)
    (shield : Option ShieldFigures) (store : Option StoreFigures) (a : PrometheusAdapter Text) :
    getMetricsText number pre shield store a =
      textOf (families number (normalizePrefix pre) shield store a) := by
  have hlines := metricsLines_eq hnumber (normalizePrefix pre) shield store a
  rw [getMetricsText, textOf, ← hlines]
  refine intercalate_lineFeed ?_
  rw [hlines]
  exact List.cons_ne_nil _ _

/-! ## Well-formed -/

/-- What a family of the text can be: a case for each kind, under a name and with a help that are
well formed. -/
theorem forall_families {number : ℚ → Text} {p : Text} {shield : Option ShieldFigures}
    {store : Option StoreFigures} {a : PrometheusAdapter Text} {P : Family → Prop}
    (hrequests : P (requestsFamily number (p ++ units "requests_total") a))
    (hplain : ∀ (suffix doc : String) (kind : MetricType) (q : ℚ),
      (units suffix).all isNameUnit → isDoc (units doc) →
        P (plainFamily (p ++ units suffix) doc kind (number q)))
    (hhistogram : ∀ (suffix doc : String) (h : TextHistogram),
      (units suffix).all isNameUnit → isDoc (units doc) →
        P (histogramFamily number (p ++ units suffix) doc a.buckets h))
    (hhot : P (hotKeysFamily number (p ++ units "hot_key_hits") a.hotKeys))
    (hstore : ∀ (suffix doc : String) (q : ℚ), (units suffix).all isNameUnit →
      isDoc (units doc) → P (storeFamily (p ++ units suffix) doc (number q))) :
    ∀ f ∈ families number p shield store a, P f := by
  intro f hf
  rcases List.mem_append.mp hf with hf | hf
  · rcases List.mem_append.mp hf with hf | hf
    · simp only [engineFamilies, List.mem_cons, List.not_mem_nil, or_false] at hf
      rcases hf with rfl | rfl | rfl | rfl | rfl | rfl | rfl | rfl
      · exact hrequests
      · exact hplain _ _ _ _ (all_units (by decide)) (all_units (by decide))
      · exact hplain _ _ _ _ (all_units (by decide)) (all_units (by decide))
      · exact hhistogram _ _ _ (all_units (by decide)) (all_units (by decide))
      · exact hhistogram _ _ _ (all_units (by decide)) (all_units (by decide))
      · exact hplain _ _ _ _ (all_units (by decide)) (all_units (by decide))
      · exact hplain _ _ _ _ (all_units (by decide)) (all_units (by decide))
      · exact hhot
    · simp only [shieldFamilies, List.mem_cons, List.not_mem_nil, or_false] at hf
      rcases hf with rfl | rfl | rfl | rfl | rfl | rfl | rfl <;>
        exact hplain _ _ _ _ (all_units (by decide)) (all_units (by decide))
  · cases store with
    | none => exact absurd hf List.not_mem_nil
    | some store =>
      simp only [Option.map_some, Option.getD_some, storeFamilies, List.mem_cons,
        List.not_mem_nil, or_false] at hf
      rcases hf with rfl | rfl | rfl <;>
        exact hstore _ _ _ (all_units (by decide)) (all_units (by decide))

/-- A prefix that is empty or a metric name is one after it has been normalized. -/
theorem isName_normalizePrefix {pre : Text} (h : pre = [] ∨ isName pre) :
    isName (normalizePrefix pre) := by
  unfold normalizePrefix
  split
  · decide
  · rename_i hlen
    have hpre : isName pre := h.resolve_left fun hnil => hlen (by rw [hnil]; rfl)
    split
    · exact hpre
    · exact isName_append hpre (by decide)

section WellFormed

variable {number : ℚ → Text} {p : Text} (hnumber : WritesNumbers number) (hp : isName p)

include hnumber hp

/-- A family of one sample is well formed. -/
theorem wellFormed_plainFamily {suffix doc : String} (hsuffix : (units suffix).all isNameUnit)
    (hdoc : isDoc (units doc)) (kind : MetricType) (q : ℚ) :
    (plainFamily (p ++ units suffix) doc kind (number q)).WellFormed := by
  have hname : isName (p ++ units suffix) := isName_append hp hsuffix
  refine ⟨hname, hdoc, fun s hs => ?_⟩
  obtain rfl := List.mem_singleton.mp hs
  exact ⟨hname, fun l hl => absurd hl List.not_mem_nil, hnumber.value q⟩

/-- A family of the store is well formed. -/
theorem wellFormed_storeFamily {suffix doc : String} (hsuffix : (units suffix).all isNameUnit)
    (hdoc : isDoc (units doc)) (q : ℚ) :
    (storeFamily (p ++ units suffix) doc (number q)).WellFormed := by
  have hname : isName (p ++ units suffix) := isName_append hp hsuffix
  refine ⟨hname, hdoc, fun s hs => ?_⟩
  obtain rfl := List.mem_singleton.mp hs
  refine ⟨hname, fun l hl => ?_, hnumber.value q⟩
  obtain rfl := List.mem_singleton.mp hl
  exact (by decide : isName (units "store"))

/-- The family of a histogram is well formed. -/
theorem wellFormed_histogramFamily {suffix doc : String}
    (hsuffix : (units suffix).all isNameUnit) (hdoc : isDoc (units doc)) (buckets : List ℚ)
    (h : TextHistogram) :
    (histogramFamily number (p ++ units suffix) doc buckets h).WellFormed := by
  have hname : isName (p ++ units suffix) := isName_append hp hsuffix
  have hle : ∀ (value : Text), ∀ l ∈ [(units "le", value)], isName l.1 := by
    intro value l hl
    obtain rfl := List.mem_singleton.mp hl
    exact (by decide : isName (units "le"))
  refine ⟨hname, hdoc, fun s hs => ?_⟩
  rcases List.mem_append.mp hs with hs | hs
  · obtain ⟨e, -, rfl⟩ := List.mem_map.mp hs
    exact ⟨isName_append hname (by decide), hle _, hnumber.value _⟩
  · simp only [List.mem_cons, List.not_mem_nil, or_false] at hs
    rcases hs with rfl | rfl | rfl
    · exact ⟨isName_append hname (by decide), hle _, hnumber.value _⟩
    · exact ⟨isName_append hname (by decide), fun l hl => absurd hl List.not_mem_nil,
        hnumber.value _⟩
    · exact ⟨isName_append hname (by decide), fun l hl => absurd hl List.not_mem_nil,
        hnumber.value _⟩

/-- The family of the requests is well formed. -/
theorem wellFormed_requestsFamily (a : PrometheusAdapter Text) :
    (requestsFamily number (p ++ units "requests_total") a).WellFormed := by
  have hname : isName (p ++ units "requests_total") := isName_append hp (by decide)
  have hdoc : isDoc (units "Total requests processed by the rate limiter") :=
    all_units (by decide)
  have hlabels : ∀ status reason : String, ∀ l ∈ statusLabels status reason, isName l.1 := by
    intro status reason l hl
    simp only [statusLabels, List.mem_cons, List.not_mem_nil, or_false] at hl
    rcases hl with rfl | rfl
    · exact (by decide : isName (units "status"))
    · exact (by decide : isName (units "reason"))
  refine ⟨hname, hdoc, fun s hs => ?_⟩
  simp only [requestsFamily, List.mem_cons, List.not_mem_nil, or_false] at hs
  rcases hs with rfl | rfl | rfl | rfl | rfl | rfl <;>
    exact ⟨hname, hlabels _ _, hnumber.value _⟩

/-- The family of the hot keys is well formed, whatever the keys are. -/
theorem wellFormed_hotKeysFamily (hotKeys : List (HotKey Text)) :
    (hotKeysFamily number (p ++ units "hot_key_hits") hotKeys).WellFormed := by
  have hname : isName (p ++ units "hot_key_hits") := isName_append hp (by decide)
  have hdoc : isDoc (units "Observed hits per hot key (top K)") :=
    all_units (by decide)
  refine ⟨hname, hdoc, fun s hs => ?_⟩
  obtain ⟨hk, -, rfl⟩ := List.mem_map.mp hs
  refine ⟨hname, fun l hl => ?_, hnumber.value _⟩
  obtain rfl := List.mem_singleton.mp hl
  exact (by decide : isName (units "key"))

/-- **Every family of the text is well formed.** -/
theorem wellFormed_families (shield : Option ShieldFigures) (store : Option StoreFigures)
    (a : PrometheusAdapter Text) :
    ∀ f ∈ families number p shield store a, f.WellFormed := by
  apply forall_families
  · exact wellFormed_requestsFamily hnumber hp a
  · intro suffix doc kind q hsuffix hdoc
    exact wellFormed_plainFamily hnumber hp hsuffix hdoc kind q
  · intro suffix doc h hsuffix hdoc
    exact wellFormed_histogramFamily hnumber hp hsuffix hdoc a.buckets h
  · exact wellFormed_hotKeysFamily hnumber hp a.hotKeys
  · intro suffix doc q hsuffix hdoc
    exact wellFormed_storeFamily hnumber hp hsuffix hdoc q

end WellFormed

/-! ## Series -/

/-- What follows the prefix in the names of the engine, of the shield and of the store. -/
def engineSuffixes : List String :=
  ["requests_total", "requests_skipped_total", "requests_allowlisted_total",
    "middleware_duration_milliseconds", "middleware_duration_milliseconds" ++ "_bucket",
    "middleware_duration_milliseconds" ++ "_sum", "middleware_duration_milliseconds" ++ "_count",
    "store_duration_milliseconds", "store_duration_milliseconds" ++ "_bucket",
    "store_duration_milliseconds" ++ "_sum", "store_duration_milliseconds" ++ "_count",
    "requests_per_second", "block_rate", "hot_key_hits"]

def shieldSuffixes : List String :=
  ["shield_blocked_keys", "shield_store_calls_saved_total", "shield_total_keys_blocked",
    "shield_total_keys_expired", "shield_total_keys_evicted", "shield_hit_rate",
    "shield_store_calls_total"]

def storeSuffixes : List String :=
  ["store_active_keys", "store_total_evictions", "store_max_keys"]

/-- No two families have the same suffix. -/
theorem nodup_suffixes :
    ((engineSuffixes ++ shieldSuffixes ++ storeSuffixes).map units).Nodup := by
  decide +kernel

/-- The names of these suffixes. -/
def namesOf (p : Text) (suffixes : List String) : List Text :=
  (suffixes.map units).map (p ++ ·)

/-- The names of the engine's families are its suffixes behind the prefix. -/
theorem names_engineFamilies (number : ℚ → Text) (p : Text) (a : PrometheusAdapter Text) :
    (engineFamilies number p a).flatMap Family.names = namesOf p engineSuffixes := by
  simp only [engineFamilies, requestsFamily, plainFamily, histogramFamily, hotKeysFamily,
    Family.names, namesOf, engineSuffixes, List.flatMap_cons, List.flatMap_nil, List.map_cons,
    List.map_nil, List.cons_append, List.nil_append, List.append_assoc, units_append]

/-- No two families of the text share a name. -/
theorem nodup_names_families (number : ℚ → Text) (p : Text) (shield : Option ShieldFigures)
    (store : Option StoreFigures) (a : PrometheusAdapter Text) :
    ((families number p shield store a).flatMap Family.names).Nodup := by
  have hall : (namesOf p (engineSuffixes ++ shieldSuffixes ++ storeSuffixes)).Nodup :=
    nodup_suffixes.map (List.append_right_injective p)
  have hshield : (shieldFamilies number p (shield.getD {})).flatMap Family.names =
      namesOf p shieldSuffixes := rfl
  have hstore : (((store.map (storeFamilies number p)).getD []).flatMap Family.names).Sublist
      (namesOf p storeSuffixes) := by
    cases store with
    | none => exact List.nil_sublist _
    | some store => exact List.Sublist.refl _
  have hsplit : namesOf p (engineSuffixes ++ shieldSuffixes ++ storeSuffixes) =
      namesOf p engineSuffixes ++ namesOf p shieldSuffixes ++ namesOf p storeSuffixes := by
    simp only [namesOf, List.map_append]
  rw [hsplit] at hall
  refine hall.sublist ?_
  rw [families, List.flatMap_append, List.flatMap_append, names_engineFamilies, hshield]
  exact (List.Sublist.refl _).append hstore

/-- The samples of a family carry the names of the family. -/
theorem name_mem_names {number : ℚ → Text} {p : Text} {shield : Option ShieldFigures}
    {store : Option StoreFigures} {a : PrometheusAdapter Text} :
    ∀ f ∈ families number p shield store a, ∀ s ∈ f.samples, s.name ∈ f.names := by
  apply forall_families
  · intro s hs
    simp only [requestsFamily, List.mem_cons, List.not_mem_nil, or_false] at hs
    rcases hs with rfl | rfl | rfl | rfl | rfl | rfl <;> exact List.mem_cons_self
  · intro suffix doc kind q _ _ s hs
    obtain rfl := List.mem_singleton.mp hs
    exact List.mem_cons_self
  · intro suffix doc h _ _ s hs
    rcases List.mem_append.mp hs with hs | hs
    · obtain ⟨e, -, rfl⟩ := List.mem_map.mp hs
      exact List.mem_cons_of_mem _ List.mem_cons_self
    · simp only [List.mem_cons, List.not_mem_nil, or_false] at hs
      rcases hs with rfl | rfl | rfl
      · exact List.mem_cons_of_mem _ List.mem_cons_self
      · exact List.mem_cons_of_mem _ (List.mem_cons_of_mem _ List.mem_cons_self)
      · exact List.mem_cons_of_mem _ (List.mem_cons_of_mem _ (List.mem_cons_of_mem _
          List.mem_cons_self))
  · intro s hs
    obtain ⟨hk, -, rfl⟩ := List.mem_map.mp hs
    exact List.mem_cons_self
  · intro suffix doc q _ _ s hs
    obtain rfl := List.mem_singleton.mp hs
    exact List.mem_cons_self

/-! ### Within a family -/

/-- The lines of the requests have four different label sets. -/
theorem nodup_series_requestsFamily (number : ℚ → Text) (name : Text)
    (a : PrometheusAdapter Text) :
    ((requestsFamily number name a).samples.map Sample.series).Nodup := by
  refine List.Nodup.of_map Prod.snd ?_
  show [statusLabels "allowed" "none", statusLabels "blocked" "rate_limit",
    statusLabels "blocked" "blocklist", statusLabels "blocked" "penalty",
    statusLabels "blocked" "key_manager", statusLabels "blocked" "service_unavailable"].Nodup
  decide

/-- The lines of the hot keys differ as the keys do. -/
theorem nodup_series_hotKeysFamily (number : ℚ → Text) (name : Text)
    {hotKeys : List (HotKey Text)} (h : (hotKeys.map HotKey.key).Nodup) :
    ((hotKeysFamily number name hotKeys).samples.map Sample.series).Nodup := by
  have hinj : Function.Injective fun key : Text => (name, [(units "key", key)]) := by
    intro k k' heq
    exact (Prod.mk.inj (List.cons.inj (Prod.mk.inj heq).2).1).2
  have hmap : (hotKeysFamily number name hotKeys).samples.map Sample.series =
      (hotKeys.map HotKey.key).map fun key => (name, [(units "key", key)]) := by
    rw [hotKeysFamily, List.map_map, List.map_map]
    rfl
  rw [hmap]
  exact h.map hinj

/-- The lines of a histogram differ as its bounds do. -/
theorem nodup_series_histogramFamily {number : ℚ → Text} (hnumber : WritesNumbers number)
    (name : Text) (doc : String) {buckets : List ℚ} (hbuckets : (buckets.map number).Nodup)
    (h : TextHistogram) :
    ((histogramFamily number name doc buckets h).samples.map Sample.series).Nodup := by
  have hinj : Function.Injective fun le : Text =>
      (name ++ units "_bucket", [(units "le", le)]) := by
    intro le le' heq
    exact (Prod.mk.inj (List.cons.inj (Prod.mk.inj heq).2).1).2
  have hmap : (histogramFamily number name doc buckets h).samples.map Sample.series =
      ((buckets.map number ++ [units "+Inf"]).map fun le =>
        (name ++ units "_bucket", [(units "le", le)])) ++
        [(name ++ units "_sum", []), (name ++ units "_count", [])] := by
    have hfst : buckets.zipIdx.map (fun e => number e.1) = buckets.map number := by
      show buckets.zipIdx.map (number ∘ Prod.fst) = buckets.map number
      rw [← List.map_map, List.zipIdx_map_fst]
    rw [histogramFamily, List.map_append, List.map_map, List.map_append, ← hfst, List.map_map]
    simp only [List.map_cons, List.map_nil, List.append_assoc, List.cons_append, List.nil_append]
    rfl
  have hlabels : (buckets.map number ++ [units "+Inf"]).Nodup := by
    refine List.nodup_append'.mpr ⟨hbuckets, List.nodup_singleton _, ?_⟩
    intro le hle hinf
    obtain ⟨q, -, rfl⟩ := List.mem_map.mp hle
    exact hnumber.finite q (List.mem_singleton.mp hinf)
  have hends : [(name ++ units "_sum", ([] : List (Text × Text))),
      (name ++ units "_count", [])].Nodup := by
    refine List.nodup_cons.mpr ⟨fun hmem => ?_, List.nodup_singleton _⟩
    have heq := List.append_cancel_left (Prod.mk.inj (List.mem_singleton.mp hmem)).1
    exact absurd heq (by decide)
  rw [hmap]
  refine List.nodup_append'.mpr ⟨hlabels.map hinj, hends, ?_⟩
  intro x hx hx'
  obtain ⟨le, -, rfl⟩ := List.mem_map.mp hx
  simp only [List.mem_cons, List.not_mem_nil, or_false, Prod.mk.injEq, List.cons_ne_nil,
    and_false] at hx'

/-- **No series of the text comes twice.** -/
theorem nodup_series_families {number : ℚ → Text} (hnumber : WritesNumbers number) (p : Text)
    (shield : Option ShieldFigures) (store : Option StoreFigures) {a : PrometheusAdapter Text}
    (hbuckets : (a.buckets.map number).Nodup) (hkeys : (a.hotKeys.map HotKey.key).Nodup) :
    ((((families number p shield store a).flatMap Family.samples)).map Sample.series).Nodup := by
  apply nodup_series (nodup_names_families number p shield store a) name_mem_names
  apply forall_families
  · exact nodup_series_requestsFamily number _ a
  · exact fun suffix doc kind q _ _ => List.nodup_singleton _
  · intro suffix doc h _ _
    exact nodup_series_histogramFamily hnumber _ doc hbuckets h
  · exact nodup_series_hotKeysFamily number _ hkeys
  · exact fun suffix doc q _ _ => List.nodup_singleton _

end PrometheusAdapter

/-! ## Runs -/

section Runs

variable {ρ σ κ : Type} [DecidableEq κ]

/-- What the text relies on: the buckets stay, and no key is hot twice. -/
structure ShowsOnce (buckets : List ℚ) (a : PrometheusAdapter κ) : Prop where
  buckets_eq : a.buckets = buckets
  hotKeys : ∀ s, a.lastSnapshot = some s → (s.hotKeys.map HotKey.key).Nodup

omit [DecidableEq κ] in
/-- The collector names no hot key twice. -/
theorem nodup_hotKeysTopK (map : InsertionMap κ HotKeyIntervalCounts) (k : ℤ) :
    ((MetricsCollector.hotKeysTopK map k).map HotKey.key).Nodup := by
  rw [hotKeysTopK_eq]
  refine nodup_map_topRanked ?_
  rw [List.map_map]
  exact map.nodupKeys

/-- Registering a metric changes neither the buckets nor the hot keys. -/
theorem ShowsOnce.registered {buckets : List ℚ} {a : PrometheusAdapter κ}
    (h : ShowsOnce buckets a) (n : ℕ) : ShowsOnce buckets (a.registered n) := by
  unfold PrometheusAdapter.registered
  split
  · exact ⟨h.buckets_eq, h.hotKeys⟩
  · exact h

/-- Every event of the pipeline keeps the buckets and names no hot key twice. -/
theorem ShowsOnce.step {buckets : List ℚ} {s : MetricsPipeline ρ κ}
    (h : ShowsOnce buckets s.prometheus) (share : ℚ → ℕ → ℚ) (o : RateLimitOptions ρ σ κ)
    (hotKeyMax : ℕ+) (i : PipelineEvent ρ σ κ) :
    ShowsOnce buckets (s.step share o hotKeyMax i).1.prometheus := by
  cases i with
  | segment event => exact h
  | latency now startTime => exact h
  | storeLatency now startTime => exact h
  | tick =>
    refine ⟨h.buckets_eq, fun snap hsnap => ?_⟩
    obtain rfl := Option.some.inj hsnap
    exact nodup_hotKeysTopK s.engine.metrics.hotKeys s.collector.topKSize
  | registered n => exact h.registered n

end Runs

open PrometheusAdapter in
/-- **The text is scraped losslessly.**  At the end of every run, whatever keys the requests had,
the families are read back from the text and no family is there twice; with buckets that are written
differently no series is there twice.  The prefix is empty or a metric name, which
`normalizePrefix` does not check. -/
theorem scraped_text {ρ σ : Type} {number : ℚ → Text} (hnumber : WritesNumbers number)
    {pre : Text} (hpre : pre = [] ∨ isName pre) (shield : Option ShieldFigures)
    (store : Option StoreFigures) (share : ℚ → ℕ → ℚ) (o : RateLimitOptions ρ σ Text)
    (hotKeyMax : ℕ+) (intervalMs : ℚ) (topKSize : ℤ) (buckets : List ℚ) (sampleCapacity : ℕ)
    (is : List (PipelineEvent ρ σ Text)) :
    let start : MetricsPipeline ρ Text := .start intervalMs topKSize buckets sampleCapacity
    let a := (final (MetricsPipeline.step share o hotKeyMax) is start).prometheus
    let shown := families number (normalizePrefix pre) shield store a
    scrape (getMetricsText number pre shield store a) = some shown ∧
      (shown.map Family.name).Nodup ∧
      ((buckets.map number).Nodup →
        ((shown.flatMap Family.samples).map Sample.series).Nodup) := by
  intro start a shown
  have hstart : ShowsOnce buckets start.prometheus :=
    ⟨rfl, fun s hs => absurd hs.symm (Option.some_ne_none s)⟩
  have ha : ShowsOnce buckets a := by
    apply final_of_invariant (P := fun _ => True)
      (I := fun s : MetricsPipeline ρ Text => ShowsOnce buckets s.prometheus)
      (fun i s h _ => h.step share o hotKeyMax i) hstart
    exact fun _ _ => trivial
  have hkeys : (a.hotKeys.map HotKey.key).Nodup := by
    rw [PrometheusAdapter.hotKeys]
    cases hlast : a.lastSnapshot with
    | none => exact List.nodup_nil
    | some s => exact ha.hotKeys s hlast
  have hwf := wellFormed_families hnumber (isName_normalizePrefix hpre) shield store a
  have hnames := nodup_names_families number (normalizePrefix pre) shield store a
  refine ⟨?_, nodup_names hnames, fun hbuckets => ?_⟩
  · rw [getMetricsText_eq hnumber]
    exact scrape_textOf hwf
  · apply nodup_series_families hnumber (normalizePrefix pre) shield store _ hkeys
    rw [ha.buckets_eq]
    exact hbuckets

/-! ### Numbers for a run -/

/-- The decimal digits of the numerator, which is all there is to write of an integer. -/
def wholeText (q : ℚ) : Text := (intText q.num).map fun c => UInt16.ofNat c.toNat

/-- A whole number is written with digits and a sign. -/
theorem mem_wholeText {q : ℚ} {u : UInt16} (h : u ∈ wholeText q) : u ∈ units "-0123456789" := by
  obtain ⟨c, hc, rfl⟩ := List.mem_map.mp h
  have hchar : c = '-' ∨ c.isDigit = true := by
    unfold intText at hc
    split at hc
    · rcases List.mem_cons.mp hc with rfl | hc
      · exact .inl rfl
      · exact .inr (isDigit_of_mem_toDigits hc)
    · exact .inr (isDigit_of_mem_toDigits hc)
  rcases hchar with rfl | hdigit
  · decide
  · obtain ⟨hle, hlt⟩ := Char.isDigit_iff_toNat.mp hdigit
    generalize c.toNat = n at hle hlt ⊢
    have hn : n < 58 := by simpa using Nat.lt_succ_of_le hlt
    have hn' : 48 ≤ n := by simpa using hle
    interval_cases n <;> decide

/-- Writing whole numbers in decimal is a way to write numbers. -/
theorem writesNumbers_wholeText : PrometheusAdapter.WritesNumbers wholeText where
  value q := by
    have hall : (units "-0123456789").all fun u =>
        u != space && u != lineFeed && u != quote && u != Exposition.backslash :=
      all_units (by decide)
    obtain ⟨c, digits, hcons, -⟩ := exists_cons_intText q.num
    have hempty : (wholeText q).isEmpty = false := by
      rw [wholeText, hcons]
      rfl
    rw [isValue, hempty]
    exact List.all_eq_true.mpr fun u hu => List.all_eq_true.mp hall u (mem_wholeText hu)
  finite q heq := by
    have hplus : (43 : UInt16) ∈ wholeText q := by
      rw [heq]
      decide
    exact absurd (mem_wholeText hplus) (by decide)

/-- A store that is never used up, under keys that are texts. -/
def neverSpentText : RateLimitOptions Unit Unit Text where
  clock := fun _ => 0
  store :=
    { increment := fun _ _ s => (.ok (.ofUsage 1 2 1000), s)
      decrement := fun _ _ s => s }

open PrometheusAdapter in
/-- A key that tries to end its label and to add a line. -/
theorem scraped_text_quoted_key :
    let is : List (PipelineEvent Unit Unit Text) :=
      [.segment (.consume (units "a\x22\x7d 1\x0aratelimit_requests_total 7") () ()),
        .segment (.incremented 0 (.ok { result := .ofUsage 1 2 1000 }) ()), .tick]
    let start : MetricsPipeline Unit Text := .start 1000 20 [1, 5] 4
    let a := (final (MetricsPipeline.step (fun p n => p / 100 * n) neverSpentText 2) is
      start).prometheus
    let shown := families wholeText (normalizePrefix []) none none a
    scrape (getMetricsText wholeText [] none none a) = some shown ∧
      (shown.map Family.name).Nodup ∧
      ((shown.flatMap Family.samples).map Sample.series).Nodup := by
  intro is start a shown
  have hbuckets : ([1, 5].map wholeText).Nodup := by decide
  obtain ⟨hscraped, hnames, hseries⟩ := scraped_text writesNumbers_wholeText
    (.inl rfl : ([] : Text) = [] ∨ isName []) none none (fun p n => p / 100 * n) neverSpentText 2
    1000 20 [1, 5] 4 is
  exact ⟨hscraped, hnames, hseries hbuckets⟩

end RatelimitFlex
