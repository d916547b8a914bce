import Nockd.Api.AppV1
import Nockd.Registry.DeployHistory
import Nockd.Web.AnsiToHtml

/-!
# The views of the dashboard

Each view turns what the API answers into fragments of HTML, which the browser parses one by one.
A fragment is the list of its literal pieces and of what is put between them.
-/

namespace Nockd

namespace Web

open Api Registry Store

/-! ## Strings and numbers -/

/-- A string of the daemon, as the browser has it. -/
def utf16 (s : String) : JsString := s.toList.flatMap fun c =>
  if c.toNat < 0x10000 then [UInt16.ofNat c.toNat]
  else [UInt16.ofNat (0xd800 + (c.toNat - 0x10000) / 0x400),
    UInt16.ofNat (0xdc00 + (c.toNat - 0x10000) % 0x400)]

def dash : JsString := js "—"

def digits (n : ℕ) : JsString := js (toString n)

def integer (n : ℤ) : JsString := js (toString n)

/-- What depends on the browser: where the page comes from, and how it writes times and numbers
that are not integers. -/
structure Browser where
  protocol : JsString
  hostname : JsString
  toLocaleString : ℤ → JsString
  toLocaleTimeString : ℤ → JsString
  /-- `toFixed(1)` of a CPU share. -/
  toFixed : UInt32 → JsString
  /-- `toFixed(0)` of the sum of CPU shares. -/
  sumFixed : List UInt32 → JsString
  /-- `Math.min((lag / LAG_THRESHOLD) * 100, 100)` -/
  lagPct : ℕ → JsString
  /-- `Math.round((rss / maxRss) * 100)` -/
  rssPct : ℕ → ℕ → ℕ

/-- What is neither null nor the empty string. -/
def present (s : Option String) : Option JsString := (s.map utf16).filter (· ≠ [])

def isUnreserved (c : Char) : Bool :=
  c.isAlphanum || c ∈ ['-', '_', '.', '!', '~', '*', '\'', '(', ')']

def hexDigit (n : ℕ) : UInt16 := UInt16.ofNat (if n < 10 then 0x30 + n else 0x41 + (n - 10))

def percent (b : UInt8) : JsString := [0x25, hexDigit (b.toNat / 16), hexDigit (b.toNat % 16)]

def encodeURIComponent (s : String) : JsString := s.toList.flatMap fun c =>
  if isUnreserved c then [UInt16.ofNat c.toNat] else (asBytes c.toString).flatMap percent

/-! ## Helpers -/

def statuses : List JsString := [js "running", js "degraded", js "crashing", js "stopped"]

def statusClass (s : JsString) : JsString := if s ∈ statuses then s else js "stopped"

def glyph (s : JsString) : JsString :=
  [js "<span class=\"glyph ", statusClass s, js "\"></span>"].flatten

def shortHash (h : JsString) : JsString :=
  if h = [] then dash else h.take 4 ++ js "…" ++ h.drop (h.length - 2)

def metricStr (a : AppV1) : JsString :=
  match present a.statusLine with
  | some line => ((present a.statusLabel).map (· ++ js " ")).getD [] ++ line
  | none => []

def vfy (v : JsString) : JsString :=
  if v = js "verified" then js "<span class=\"vfy ok\">✓ verified</span>"
  else if v = js "drift" then js "<span class=\"vfy bad\">▼ drift</span>"
  else js "<span class=\"vfy muted\">unverified</span>"

variable (b : Browser)

def appLink (a : AppV1) : Option JsString := (a.port.filter (· ≠ 0)).map fun port =>
  [b.protocol, js "//", b.hostname, js ":", digits port.toNat, js "/"].flatten

def appIcon (a : AppV1) (cls : JsString) : JsString :=
  if a.hasIcon then
    [js "<img class=\"appicon ", cls, js "\" src=\"/api/v1/apps/", encodeURIComponent a.name,
      js "/icon?v=", integer a.updatedAt, js "\" alt=\"\" loading=\"lazy\">"].flatten
  else []

/-- `toFixed(1)` of a size in a unit. -/
def fixed (n unit : ℕ) : JsString :=
  let tenths := (20 * n + unit) / (2 * unit)
  [digits (tenths / 10), js ".", digits (tenths % 10)].flatten

def scaled (n unit : ℕ) : List JsString → JsString
  | [] => []
  | [u] => [fixed n unit, js " ", u].flatten
  | u :: us => if n < 1024 * unit then [fixed n unit, js " ", u].flatten
      else scaled n (1024 * unit) us

def fmtBytes (n : ℕ) : JsString :=
  if n < 1024 then [digits n, js " B"].flatten
  else scaled n 1024 [js "KB", js "MB", js "GB", js "TB"]

def fmtUptime : Option ℤ → JsString
  | none => dash
  | some s =>
    if s < 60 then [integer s, js "s"].flatten
    else if s < 3600 then [integer (s / 60), js "m"].flatten
    else if s < 86400 then [integer (s / 3600), js "h"].flatten
    else [integer (s / 86400), js "d"].flatten

/-! ## Fleet -/

def countOf (apps : List AppV1) (status : String) : JsString :=
  digits (apps.countP fun a => a.status = status)

def fleetStats (apps : List AppV1) : JsString :=
  [js "
      <div class=\"stats\">
        <div class=\"stat\"><div class=\"num\">", digits apps.length,
    js "</div><div class=\"lab\">Apps</div></div>
        <div class=\"stat blue\"><div class=\"num\">", countOf apps "running",
    js "</div><div class=\"lab\">Running</div></div>
        <div class=\"stat yellow\"><div class=\"num\">", countOf apps "degraded",
    js "</div><div class=\"lab\">Degraded</div></div>
        <div class=\"stat red\"><div class=\"num\">", countOf apps "crashing",
    js "</div><div class=\"lab\">Crashing · ", countOf apps "stopped", js " stopped</div></div>
      </div>"].flatten

def fleetBar (tiles : Bool) (apps : List AppV1) : JsString :=
  [js "
      <div class=\"toolbar\">
        <div class=\"summary\">", digits apps.length, js " apps · ", countOf apps "running",
    js " running · ", countOf apps "degraded", js " degraded · ", countOf apps "crashing",
    js " crashing · ", countOf apps "stopped", js " stopped</div>
        <div class=\"seg\">
          <button data-m=\"table\" class=\"", if tiles then [] else js "active",
    js "\">Table</button>
          <button data-m=\"tiles\" class=\"", if tiles then js "active" else [],
    js "\">Tiles</button>
        </div>
      </div>"].flatten

def fleetLegend : JsString :=
  [js "
      <div class=\"legend\">
        <span class=\"item\">", glyph (js "running"), js " Running</span>
        <span class=\"item\">", glyph (js "degraded"), js " Degraded</span>
        <span class=\"item\">", glyph (js "crashing"), js " Crashing</span>
        <span class=\"item\">", glyph (js "stopped"), js " Stopped</span>
        <span class=\"recon\">Reconciler · live</span>
      </div>"].flatten

def fleetHead : JsString :=
  [js "<table class=\"table\"><thead><tr>
      <th></th><th>App</th><th>Artifact</th><th>Endpoint</th><th>Uptime</th>
      <th>Rst</th><th>Health</th><th>Verified</th><th>Metric</th><th>Status</th></tr></thead>",
    js "<tbody></tbody></table>"].flatten

def idleClass (a : AppV1) : JsString := if a.status = "stopped" then js "idle" else []

/-- The link of an app in the fleet. -/
def miniLink (a : AppV1) : JsString :=
  match appLink b a with
  | some link =>
    [js " <a class=\"relay-mini\" href=\"", esc link,
      js "\" target=\"_blank\" rel=\"noopener\" title=\"Open ", esc link, js "\">↗</a>"].flatten
  | none => []

def restarts (a : AppV1) : JsString :=
  if 3 < a.restartCount.toNat then
    [js "<span class=\"rst-hot\">", digits a.restartCount.toNat, js "</span>"].flatten
  else digits a.restartCount.toNat

def orText (s : Option String) (text : JsString) : JsString := (present s).getD text

def metricCell (a : AppV1) : JsString :=
  if (present a.statusLine).isSome then esc (metricStr a) else dash

def fleetRow (a : AppV1) : JsString :=
  [js "<tr class=\"", idleClass a, js "\">
        <td>", glyph (utf16 a.status), js "</td>
        <td class=\"cell-app\">", appIcon a [], esc (utf16 a.name), miniLink b a, js "</td>
        <td class=\"mono\">", shortHash (utf16 a.artifactHash), js "</td>
        <td class=\"mono\">", esc (orText a.endpointName dash), js "</td>
        <td class=\"mono\">", fmtUptime a.uptimeS, js "</td>
        <td class=\"mono\">", restarts a, js "</td>
        <td class=\"mono muted\">", esc (utf16 a.health), js "</td>
        <td>", vfy (utf16 a.verified), js "</td>
        <td class=\"mono\">", metricCell a, js "</td>
        <td><span class=\"status-word ", statusClass (utf16 a.status), js "\">",
    esc (utf16 a.status), js "</span></td>
      </tr>"].flatten

/-- The right side of the band of a tile. -/
def bandText (a : AppV1) : JsString :=
  match present a.statusLine with
  | some line => esc line
  | none =>
    if a.status = "crashing" then [digits a.restartCount.toNat, js " rst"].flatten
    else fmtUptime a.uptimeS

def fleetTile (a : AppV1) : JsString :=
  [js "<div class=\"tile ", idleClass a, js "\">
        <div class=\"band ", statusClass (utf16 a.status), js "\">
          <span class=\"left\">", glyph (utf16 a.status), js " ", esc (utf16 a.status), js "</span>
          <span>", bandText a, js "</span>
        </div>
        <div class=\"body\">
          <div class=\"tname\">", appIcon a [], esc (utf16 a.name), miniLink b a, js "</div>
          <div class=\"meta\">",
    esc (if utf16 a.artifactHash = [] then dash else (utf16 a.artifactHash).take 18 ++ js "…"),
    js "</div>
          <div class=\"meta\">", esc (orText a.endpointName (js "no endpoint")), js "</div>
          <div class=\"tfoot\"><span>up ", fmtUptime a.uptimeS, js "</span>",
    vfy (utf16 a.verified), js "</div>
        </div>
      </div>"].flatten

/-- `render`, of the fleet. -/
def fleetView (tiles : Bool) (apps : List AppV1) : List JsString :=
  [fleetStats apps, fleetBar tiles apps] ++
    (if tiles then
      js "<div class=\"tiles\"></div>" :: apps.map (fleetTile b) ++
        [js "<div class=\"tile deploy\"><span class=\"plus\">+ DEPLOY APP</span></div>"]
    else
      fleetHead ::
        if apps = [] then
          [js "<div class=\"empty-tile\">No apps deployed. Use <b>nockd deploy</b>.</div>"]
        else apps.map (fleetRow b)) ++
    [fleetLegend]

/-! ## App detail -/

def detailLink (a : AppV1) : JsString :=
  match appLink b a with
  | some link =>
    [js "<a class=\"btn relay\" href=\"", esc link,
      js "\" target=\"_blank\" rel=\"noopener\" title=\"Open ", esc link,
      js "\">Open app ↗</a>"].flatten
  | none => []

def reloadTitle (a : AppV1) : JsString :=
  match present a.manifestPath with
  | some path =>
    [js "Re-read ", esc path, js " and re-apply its config (no rebuild)"].flatten
  | none => js "Deploy once with `nockd deploy -f nockd.toml` to enable Reload"

def prevHash (a : AppV1) : JsString := ((present a.prevArtifact).map shortHash).getD dash

def rollbackTitle (a : AppV1) : JsString :=
  match present a.prevArtifact with
  | some prev => [js "Revert to ", shortHash prev, js " and restart"].flatten
  | none => js "No previous artifact to roll back to yet"

def detailHead (a : AppV1) : JsString :=
  [js "
      <div class=\"detail-head\">
        <a class=\"back\" href=\"#/\">‹ FLEET</a>
        ", glyph (utf16 a.status), js "
        ", appIcon a (js "big"), js "
        <h1>", esc (utf16 a.name), js "</h1>
        <span class=\"sub\">", esc (utf16 a.restartPolicy), js " · up ", fmtUptime a.uptimeS,
    js " · pid ", (a.pid.map digits).getD dash,
    if (present a.statusLine).isSome then js " · " ++ esc (metricStr a) else [], js "</span>
        <div class=\"actions\">
          ", detailLink b a, js "
          <button class=\"btn\" data-act=\"reload\" title=\"", reloadTitle a, js "\">Reload</button>
          <button class=\"btn\" data-act=\"rollback\" data-confirm=\"Roll back ",
    esc (utf16 a.name), js " to the previous artifact (", prevHash a, js ")?\" title=\"",
    rollbackTitle a, js "\">Rollback</button>
          <button class=\"btn\" data-act=\"restart\">Restart</button>
          <button class=\"btn\" data-act=\"start\">Start</button>
          <button class=\"btn danger\" data-act=\"stop\">Stop</button>
        </div>
      </div>"].flatten

def kernelLine (a : AppV1) : JsString :=
  match present a.kernelHash with
  | some kernel => [js "<div class=\"kv\"><span class=\"k\">kernel</span> ", esc kernel,
      js "</div>"].flatten
  | none => js "<div class=\"kv muted\">kernel embedded in binary</div>"

def rollbackLine (a : AppV1) : JsString :=
  match present a.prevArtifact with
  | some prev => [js "<div class=\"kv\"><span class=\"k\">rollback to</span> ",
      esc (shortHash prev), js "</div>"].flatten
  | none => []

def pageLink (a : AppV1) : JsString :=
  match appLink b a with
  | some link =>
    [js "<a class=\"relay-inline\" href=\"", esc link,
      js "\" target=\"_blank\" rel=\"noopener\">", esc link, js " ↗</a>"].flatten
  | none => js "— none —"

def cpuText (a : AppV1) : JsString := (a.cpuPct.map fun cpu => b.toFixed cpu ++ js "%").getD dash

def rssText (a : AppV1) : JsString := (a.rssBytes.map fun rss => fmtBytes rss.toNat).getD dash

def detailBody (a : AppV1) : JsString :=
  [js "<div class=\"grid2\">
      <div class=\"col\">
        <div class=\"panel log\" id=\"log\">
          <div class=\"following\"><span class=\"dot\"></span> FOLLOWING · LIVE LOG</div>
          <pre id=\"logpre\"></pre>
        </div>
        <div class=\"panel\"><h3>Event timeline</h3><div class=\"timeline\" id=\"tl\"></div></div>
      </div>
      <div class=\"col\">
        <div class=\"panel\">
          <h3>Artifact</h3>
          <div class=\"kv\"><span class=\"k\">current</span> ",
    esc (if a.artifactHash = "" then dash else utf16 a.artifactHash), js "</div>
          ", kernelLine a, js "
          <div class=\"kv\"><span class=\"k\">verified</span> ",
    js "<span class=\"tag\" style=\"color:var(--ink-muted)\">", esc (utf16 a.verified),
    js "</span></div>
          ", rollbackLine a, js "
          <div class=\"hist\" id=\"hist\"><div class=\"kv muted\">deploy history…</div></div>
        </div>
        <div class=\"panel attach\">
          <h3>Attachment</h3>
          <div class=\"kv\" style=\"color:var(--cream)\">",
    js "<span class=\"k\" style=\"color:rgba(243,237,225,.7)\">endpoint</span> ",
    esc (orText a.endpointName (js "— none —")), js "</div>
          <div class=\"kv\" style=\"color:var(--cream)\">",
    js "<span class=\"k\" style=\"color:rgba(243,237,225,.7)\">health</span> ",
    esc (utf16 a.health), js "</div>
          <div class=\"kv\" style=\"color:var(--cream)\">",
    js "<span class=\"k\" style=\"color:rgba(243,237,225,.7)\">page</span> ", pageLink b a,
    js "</div>
        </div>
        <div class=\"panel\"><h3>Resources</h3>
          <div class=\"kv\"><span class=\"k\">cpu</span> ", cpuText b a, js "</div>
          <div class=\"kv\"><span class=\"k\">rss</span> ", rssText a, js "</div>
        </div>
      </div>
    </div>"].flatten

def detailView (a : AppV1) : List JsString := [detailHead b a, detailBody b a]

def historyRow (h : DeployHistoryRow) : JsString :=
  let vcls := if h.verifiedStatus = some "verified" then js "ok"
    else if h.verifiedStatus = some "drift" then js "bad" else js "muted"
  [js "<div class=\"hrow", if h.current then js " cur" else [], js "\">
        <span class=\"hdot ", vcls, js "\"></span>
        <span class=\"mono\">", esc (shortHash (utf16 h.artifactHash)), js "</span>
        ", if h.current then js "<span class=\"hcur\">current</span>" else [], js "
        <span class=\"hwhen\">", esc (b.toLocaleString (h.deployedAt * 1000)), js "</span>
      </div>"].flatten

/-- `renderHistory` -/
def historyView (hist : List DeployHistoryRow) : List JsString :=
  if hist = [] then [js "<div class=\"kv muted\">no deploy history</div>"]
  else hist.map (historyRow b)

def eventRow (ev : EventRow) : JsString :=
  [js "<div class=\"ev ", esc (utf16 ev.kind), js "\">
        <span class=\"evdot\"></span>
        <div><div class=\"et\">", esc (b.toLocaleTimeString (ev.ts * 1000)), js "</div>
          <span class=\"ek\">", esc (utf16 ev.kind), js "</span> <span class=\"ed\">",
    esc (utf16 ev.detail), js "</span></div>
      </div>"].flatten

/-- `renderTimeline` -/
def timelineView (events : List EventRow) : List JsString :=
  if events = [] then [js "<div class=\"kv muted\">no events yet</div>"]
  else events.map (eventRow b)

/-! ## Endpoints -/

def lagThreshold : ℕ := 800

def lagOf (e : EndpointV1) : ℕ := (e.lagMs.map (·.toNat)).getD 0

def epStatus (e : EndpointV1) : JsString :=
  if !e.reachable then js "crashing"
  else if lagThreshold < lagOf e then js "degraded"
  else js "running"

def epLabel (s : JsString) : JsString :=
  if s = js "running" then js "REACHABLE"
  else if s = js "degraded" then js "HIGH LAG"
  else js "UNREACHABLE"

def epCount (eps : List EndpointV1) (status : String) : JsString :=
  digits (eps.countP fun e => epStatus e = js status)

def endpointStats (eps : List EndpointV1) : JsString :=
  [js "
      <div class=\"stats\">
        <div class=\"stat\"><div class=\"num\">", digits eps.length,
    js "</div><div class=\"lab\">Endpoints</div></div>
        <div class=\"stat blue\"><div class=\"num\">", epCount eps "running",
    js "</div><div class=\"lab\">Reachable</div></div>
        <div class=\"stat yellow\"><div class=\"num\">", epCount eps "degraded",
    js "</div><div class=\"lab\">High lag</div></div>
        <div class=\"stat red\"><div class=\"num\">", epCount eps "crashing",
    js "</div><div class=\"lab\">Unreachable</div></div>
      </div>"].flatten

def barFill (e : EndpointV1) : JsString :=
  if !e.reachable then
    js "background:repeating-linear-gradient(45deg,var(--red),var(--red) 4px,var(--track) 4px," ++
      js "var(--track) 8px)"
  else [js "width:", b.lagPct (lagOf e), js "%;background:",
    if epStatus e = js "degraded" then js "var(--yellow)" else js "var(--blue)"].flatten

def chip (app : String) : JsString :=
  [js "<span class=\"tag\">", esc (utf16 app), js "</span>"].flatten

def chips (e : EndpointV1) : JsString :=
  if e.attachedApps = [] then
    js "<span class=\"muted mono\">— no instances attached —</span>"
  else (js " ").intercalate (e.attachedApps.map chip)

def behindText (e : EndpointV1) : JsString :=
  match e.behind.filter (· ≠ 0) with
  | some behind => [js " · ", digits behind.toNat, js " behind"].flatten
  | none => js " · tip"

def heightLine (e : EndpointV1) : JsString :=
  match e.height with
  | some height =>
    [js "<div class=\"meta\">block ", digits height.toNat, behindText e, js "</div>"].flatten
  | none => []

def endpointTile (e : EndpointV1) : JsString :=
  [js "<div class=\"tile\">
        <div class=\"band ", epStatus e, js "\">
          <span class=\"left\">", glyph (epStatus e), js " ", epLabel (epStatus e), js "</span>
          <span>",
    if e.reachable then (e.lagMs.map fun lag => digits lag.toNat ++ js "ms").getD []
    else js "timeout", js "</span>
        </div>
        <div class=\"body\">
          <div class=\"tname\">", esc (utf16 e.name),
    js " <span class=\"tag\" style=\"font-size:10px\">", esc (utf16 e.kind), js "</span></div>
          <div class=\"meta\">", esc (utf16 e.url), js "</div>
          ", heightLine e, js "
          <div style=\"height:8px;background:var(--track);margin:6px 0\">",
    js "<div style=\"height:100%;", barFill b e, js "\"></div></div>
          <div class=\"tfoot\"><span>ATTACHED · ", digits e.attachedApps.length,
    js " APPS</span><span class=\"rm\" style=\"cursor:pointer\">✕</span></div>
          <div style=\"display:flex;gap:6px;flex-wrap:wrap\">", chips e, js "</div>
        </div>
      </div>"].flatten

/-- `render`, of the endpoints. -/
def endpointsView (eps : List EndpointV1) : List JsString :=
  [endpointStats eps,
    js "<div class=\"toolbar\"><div class=\"summary\">Named Nockchain RPC targets — " ++
      js "apps attach by name</div></div>",
    js "<button class=\"btn primary\">+ ADD ENDPOINT</button>"] ++
    if eps = [] then
      [js "<div class=\"empty-tile\">No endpoints. Add one above, or <b>nockd endpoint add " ++
        js "&lt;name&gt; &lt;url&gt;</b>.</div>"]
    else js "<div class=\"tiles\"></div>" :: eps.map (endpointTile b)

/-! ## Metrics -/

/-- `a.rss_bytes || 0` -/
def rssOf (a : AppV1) : ℕ := (a.rssBytes.map (·.toNat)).getD 0

def heaviestFirst (apps : List AppV1) : List AppV1 :=
  apps.insertionSort fun a a' => rssOf a' ≤ rssOf a

def maxRss (apps : List AppV1) : ℕ := (apps.map rssOf).foldl max 1

def metricsStats (apps : List AppV1) : JsString :=
  let heaviest := (heaviestFirst apps).head?.filter fun a => rssOf a ≠ 0
  [js "
      <div class=\"stats\">
        <div class=\"stat\"><div class=\"num\">",
    digits (apps.countP fun a => a.status ≠ "stopped"),
    js "</div><div class=\"lab\">Running</div></div>
        <div class=\"stat blue\"><div class=\"num\">", fmtBytes (apps.map rssOf).sum,
    js "</div><div class=\"lab\">Total RSS</div></div>
        <div class=\"stat yellow\"><div class=\"num\">", b.sumFixed (apps.filterMap (·.cpuPct)),
    js "%</div><div class=\"lab\">Total CPU</div></div>
        <div class=\"stat red\"><div class=\"num\">",
    (heaviest.map fun a => esc (utf16 a.name)).getD dash,
    js "</div><div class=\"lab\">Heaviest · ", (heaviest.map fun a => fmtBytes (rssOf a)).getD dash,
    js "</div></div>
      </div>"].flatten

def metricsRow (apps : List AppV1) (a : AppV1) : JsString :=
  [js "<tr class=\"", idleClass a, js "\">
        <td>", glyph (utf16 a.status), js "</td>
        <td class=\"cell-app\">", appIcon a [], esc (utf16 a.name), js "</td>
        <td class=\"mono\">", cpuText b a, js "</td>
        <td><div class=\"mono\">", rssText a, js "</div>
            <div class=\"rssbar\"><div class=\"rssfill\" style=\"width:",
    digits (b.rssPct (rssOf a) (maxRss apps)), js "%\"></div></div></td>
        <td><span class=\"status-word ", statusClass (utf16 a.status), js "\">",
    esc (utf16 a.status), js "</span></td>
      </tr>"].flatten

/-- `render`, of the metrics. -/
def metricsView (apps : List AppV1) : List JsString :=
  [metricsStats b apps,
    js "<div class=\"toolbar\"><div class=\"summary\">Live per-app resource use · sampled " ++
      js "every 5s · sorted by memory (OOM watch)</div></div>",
    js "<table class=\"table\"><thead><tr>
      <th></th><th>App</th><th>CPU</th><th>Memory (RSS)</th><th>Status</th></tr></thead>" ++
      js "<tbody></tbody></table>"] ++
    (heaviestFirst apps).map (metricsRow b apps)

/-! ## Views -/

/-- A view, with what it has been answered. -/
inductive View where
  | fleet (tiles : Bool) (apps : List AppV1)
  | detail (a : AppV1)
  | history (hist : List DeployHistoryRow)
  | timeline (events : List EventRow)
  | endpoints (eps : List EndpointV1)
  | metrics (apps : List AppV1)

/-- The HTML that is parsed for a view. -/
def View.fragments (b : Browser) : View → List JsString
  | fleet tiles apps => fleetView b tiles apps
  | detail a => detailView b a
  | history hist => historyView b hist
  | timeline events => timelineView b events
  | endpoints eps => endpointsView b eps
  | metrics apps => metricsView b apps

end Web

end Nockd
