import RatelimitFlex.Library.ExpositionText
import RatelimitFlex.Program.MetricsExporters
import RatelimitFlex.Program.PrometheusLabel

/-!
# The text of the metrics

`getMetricsText` of `src/metrics/adapters/prometheus-adapter.ts`.  Keys and texts are sequences of
UTF-16 code units, `number` writes a number.  What the last snapshot had from the shield and from
the memory store is given beside the adapter.
-/

set_option autoImplicit false

namespace RatelimitFlex

open Library Library.Exposition

/-- SOURCE: src/types/metrics.ts:142-150 -/
structure ShieldFigures where
  blockedKeyCount : ℚ := 0
  storeCallsSaved : ℚ := 0
  totalKeysBlocked : ℚ := 0
  totalKeysExpired : ℚ := 0
  totalKeysEvicted : ℚ := 0
  hitRate : ℚ := 0
  storeCalls : ℚ := 0

/-- SOURCE: src/types/metrics.ts:157-161 -/
structure StoreFigures where
  activeKeys : ℚ
  totalEvictions : ℚ
  maxKeys : ℚ

namespace PrometheusAdapter

/-- SOURCE: src/metrics/adapters/prometheus-adapter.ts:16-19 -/
def normalizePrefix (pre : Text) : Text :=
  if pre.length = 0 then units "ratelimit_"
  else if pre.getLast? = some 95 then pre
  else pre ++ units "_"

/-- The two comments in front of the samples of a family. -/
def commentLines (name : Text) (doc : String) (kind : MetricType) : List Text :=
  [units "# HELP " ++ name ++ units " " ++ units doc,
    units "# TYPE " ++ name ++ units " " ++ kind.text]

/-- A sample without labels. -/
def plainLine (name value : Text) : Text := name ++ units " " ++ value

/-- A sample with labels, whose values are written as they are. -/
def labelledLine (name : Text) (labels : List (Text × Text)) (value : Text) : Text :=
  name ++ [openBrace] ++ labelsText labels ++ units " " ++ value

/-- The labels of a counter of requests. -/
def statusLabels (status reason : String) : List (Text × Text) :=
  [(units "status", units status), (units "reason", units reason)]

/-- A histogram: its buckets, the sum and the count.  The second time the source has the same lines
for the store.
SOURCE: src/metrics/adapters/prometheus-adapter.ts:231-236, 240-245 -/
def histogramLines (number : ℚ → Text) (name : Text) (buckets : List ℚ) (h : TextHistogram) :
    List Text :=
  (buckets.zipIdx.map fun (le, i) =>
      labelledLine (name ++ units "_bucket") [(units "le", number le)]
        (number (h.counts.getD i 0 : ℕ))) ++
    [labelledLine (name ++ units "_bucket") [(units "le", units "+Inf")]
        (number (h.counts.getD buckets.length 0 : ℕ)),
      plainLine (name ++ units "_sum") (number h.sum),
      plainLine (name ++ units "_count") (number h.count)]

/-- A gauge without labels. -/
def gaugeLines (name : Text) (doc : String) (value : Text) : List Text :=
  commentLines name doc .gauge ++ [plainLine name value]

/-- SOURCE: src/metrics/adapters/prometheus-adapter.ts:264-291 -/
def shieldLines (number : ℚ → Text) (p : Text) (shield : ShieldFigures) : List Text :=
  gaugeLines (p ++ units "shield_blocked_keys")
      "Keys currently blocked in the in-memory shield cache" (number shield.blockedKeyCount) ++
    gaugeLines (p ++ units "shield_store_calls_saved_total")
      "Store calls avoided by the in-memory shield (cumulative)"
      (number shield.storeCallsSaved) ++
    gaugeLines (p ++ units "shield_total_keys_blocked")
      "Total keys that have been blocked in memory since startup"
      (number shield.totalKeysBlocked) ++
    gaugeLines (p ++ units "shield_total_keys_expired")
      "Total keys removed due to block window expiry" (number shield.totalKeysExpired) ++
    gaugeLines (p ++ units "shield_total_keys_evicted")
      "Total keys evicted due to maxBlockedKeys limit (LRU)" (number shield.totalKeysEvicted) ++
    gaugeLines (p ++ units "shield_hit_rate")
      "Shield hit rate (storeCallsSaved / (storeCallsSaved + storeCalls))"
      (number shield.hitRate) ++
    gaugeLines (p ++ units "shield_store_calls_total")
      "Store increment calls that passed through the shield (cumulative)"
      (number shield.storeCalls)

/-- A gauge of the memory store. -/
def storeGaugeLines (name : Text) (doc : String) (value : Text) : List Text :=
  commentLines name doc .gauge ++
    [labelledLine name [(units "store", units "memory")] value]

/-- SOURCE: src/metrics/adapters/prometheus-adapter.ts:293-307 -/
def storeLines (number : ℚ → Text) (p : Text) (store : StoreFigures) : List Text :=
  storeGaugeLines (p ++ units "store_active_keys")
      "Distinct keys tracked in the backing MemoryStore" (number store.activeKeys) ++
    storeGaugeLines (p ++ units "store_total_evictions")
      "LRU evictions due to maxKeys on the backing MemoryStore (cumulative)"
      (number store.totalEvictions) ++
    storeGaugeLines (p ++ units "store_max_keys")
      "Configured maxKeys cap on the backing MemoryStore (0 = unlimited)" (number store.maxKeys)

/-- `lines`, for a prefix that is normalized.
SOURCE: src/metrics/adapters/prometheus-adapter.ts:177-307 -/
def metricsLines (number : ℚ → Text) (p : Text) (shield : Option ShieldFigures)
    (store : Option StoreFigures) (a : PrometheusAdapter Text) : List Text :=
  let nameReq := p ++ units "requests_total"
  let nameSkip := p ++ units "requests_skipped_total"
  let nameAllow := p ++ units "requests_allowlisted_total"
  let nameMw := p ++ units "middleware_duration_milliseconds"
  let nameSt := p ++ units "store_duration_milliseconds"
  let nameHot := p ++ units "hot_key_hits"
  let window := a.lastSnapshot.map MetricsSnapshot.window
  commentLines nameReq "Total requests processed by the rate limiter" .counter ++
    [labelledLine nameReq (statusLabels "allowed" "none") (number (a.textValue .allowed)),
      labelledLine nameReq (statusLabels "blocked" "rate_limit")
        (number (a.textValue (.blocked .rateLimit))),
      labelledLine nameReq (statusLabels "blocked" "blocklist")
        (number (a.textValue (.blocked .blocklist))),
      labelledLine nameReq (statusLabels "blocked" "penalty")
        (number (a.textValue (.blocked .penalty))),
      labelledLine nameReq (statusLabels "blocked" "key_manager")
        (number (a.textValue (.blocked .keyManager))),
      labelledLine nameReq (statusLabels "blocked" "service_unavailable")
        (number (a.textValue (.blocked .serviceUnavailable)))] ++
    commentLines nameSkip "Requests skipped via skip()" .counter ++
    [plainLine nameSkip (number (a.textValue .skipped))] ++
    commentLines nameAllow "Requests matched allowlist" .counter ++
    [plainLine nameAllow (number (a.textValue .allowlisted))] ++
    commentLines nameMw "Middleware / rate limiter handler duration in milliseconds"
      .histogram ++
    histogramLines number nameMw a.buckets a.textMw ++
    commentLines nameSt "Store increment (e.g. Redis) duration in milliseconds" .histogram ++
    histogramLines number nameSt a.buckets a.textSt ++
    gaugeLines (p ++ units "requests_per_second")
      "Estimated requests per second over the aggregation window"
      (number ((window.map MetricsWindow.requestsPerSecond).getD 0)) ++
    gaugeLines (p ++ units "block_rate") "Block rate (0–1) over the aggregation window"
      (number ((window.map MetricsWindow.blockRate).getD 0)) ++
    commentLines nameHot "Observed hits per hot key (top K)" .gauge ++
    ((a.lastSnapshot.map MetricsSnapshot.hotKeys).getD []).map (fun hk =>
      labelledLine nameHot [(units "key", PrometheusLabel.escapePrometheusLabelValue hk.key)]
        (number hk.hits)) ++
    shieldLines number p (shield.getD {}) ++
    (store.map (storeLines number p)).getD []

/-- `lines.join('\n')`, and a line feed at the end.
SOURCE: src/metrics/adapters/prometheus-adapter.ts:177-310 -/
def getMetricsText (number : ℚ → Text) (pre : Text) (shield : Option ShieldFigures)
    (store : Option StoreFigures) (a : PrometheusAdapter Text) : Text :=
  List.intercalate [lineFeed] (metricsLines number (normalizePrefix pre) shield store a) ++
    [lineFeed]

end PrometheusAdapter

end RatelimitFlex
