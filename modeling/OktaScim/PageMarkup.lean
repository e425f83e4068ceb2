import OktaScim.DemoPage
import OktaScim.Endpoints
import OktaScim.Markup

/-!
The markup that the dashboard puts into its page, from `demo.page.ts`: the cards
of the activity log, the rows of the users table and the values of the setup
guide. Whatever the events and the users hold, the markup is read as the
elements that are meant, and what the data hold is only text in them. How a
time is written is the browser's; its texts are assumed to start no markup.
-/
namespace OktaScim.PageMarkup

open Markup JsValues DemoEvents DemoPage Endpoints

section Cards

/-- `(e.status >= 200 && e.status < 300) ? 'ok' : 'err'` -/
def statusClass (succeeded : Option Json → Bool) (e : DemoEvent) : String :=
  if succeeded e.status then "ok" else "err"

def lineMarkup (cls : String) (e : DemoEvent) : Option (List Char) :=
  if isRequest e.kind then do
    let method ← esc (orEmpty e.method)
    let path ← esc (orEmpty e.path)
    return "<span class=\"mono\">".toList ++ (escape method.toList ++ " ".toList ++
      escape path.toList) ++ "</span>".toList
  else do
    let status ← esc e.status
    let method ← esc (orEmpty e.method)
    let path ← esc (orEmpty e.path)
    return ("<span class=\"st ".toList ++ cls.toList ++ "\">".toList) ++ escape status.toList ++
      "</span>".toList ++ ("<span class=\"mono\">".toList ++
        escape (method ++ " " ++ path).toList ++ "</span>".toList)

def headerMarkup (h : String × String) : List Char :=
  "<span class=\"k\">".toList ++ (escape h.1.toList ++ ":".toList) ++ "</span>".toList ++
    (" ".toList ++ escape h.2.toList)

def headersMarkup : List (String × String) → List Char
  | [] => []
  | h :: headers => "<div class=\"kv\">".toList ++ (headerMarkup h ++
      headers.flatMap fun h => "<br>".toList ++ headerMarkup h) ++ "</div>".toList

def bodyMarkup : Option String → List Char
  | none => []
  | some payload => "<pre class=\"pl\">".toList ++ escape payload.toList ++ "</pre>".toList

/-- The text that `eventCard` returns. -/
def eventMarkup (succeeded : Option Json → Bool) (time : Json → String) (e : DemoEvent) :
    Option (List Char) := do
  let line ← lineMarkup (statusClass succeeded e) e
  let headers ← eventHeaders e.headers
  let source ← esc (some e.source)
  let actor ← esc (some e.actor)
  return ("<div class=\"ev ".toList ++ escape source.toList ++ "\">".toList) ++
    ("<div class=\"ev-top\">".toList ++
      ("<span class=\"actor\">".toList ++ escape actor.toList ++ "</span>".toList ++
        ("<span class=\"ts\">".toList ++ (time e.ts).toList ++ "</span>".toList)) ++
      "</div>".toList ++
      ("<div class=\"ev-line\">".toList ++ line ++ "</div>".toList) ++
      headersMarkup headers ++ bodyMarkup (eventPayload e.payload)) ++ "</div>".toList

end Cards

section Elements

def classed (name cls : String) (children : List Node) : Node :=
  .element ⟨name.toList, [("class".toList, cls.toList)]⟩ children

def lineElements (cls : String) : Line → List Node
  | .request text => [classed "span" "mono" (textNodes text.toList)]
  | .response status text =>
    [classed "span" ("st " ++ cls) (textNodes status.toList),
      classed "span" "mono" (textNodes text.toList)]

def headerNodes (h : String × String) : List Node :=
  classed "span" "k" (textNodes (h.1 ++ ":").toList) :: textNodes (" " ++ h.2).toList

def headersElements : List (String × String) → List Node
  | [] => []
  | h :: headers => [classed "div" "kv" (headerNodes h ++
      headers.flatMap fun h => .element ⟨"br".toList, []⟩ [] :: headerNodes h)]

def bodyElements : Option String → List Node
  | none => []
  | some payload => [classed "pre" "pl" (textNodes (dropLineFeed payload.toList))]

/-- The element of a card. -/
def cardElement (cls ts : String) (card : EventCard) : Node :=
  classed "div" card.classes
    ([classed "div" "ev-top"
        [classed "span" "actor" (textNodes card.actor.toList),
          classed "span" "ts" (textNodes ts.toList)],
      classed "div" "ev-line" (lineElements cls card.line)] ++
      headersElements card.headers ++ bodyElements card.payload)

end Elements

section CardReading

theorem textNodes_append (s t : String) :
    textNodes (s ++ t).toList = textNodes s.toList ++ textNodes t.toList := by
  simp [textNodes]

theorem reads_text (s : String) : Reads (escape s.toList) (textNodes s.toList) :=
  reads_escape s.toList

theorem reads_header (h : String × String) : Reads (headerMarkup h) (headerNodes h) := by
  have hkey : Reads (escape h.1.toList ++ ":".toList) (textNodes (h.1 ++ ":").toList) := by
    rw [textNodes_append]
    exact (reads_text h.1).append (reads_plain (by decide))
  have hvalue : Reads (" ".toList ++ escape h.2.toList) (textNodes (" " ++ h.2).toList) := by
    rw [textNodes_append]
    exact (reads_plain (by decide)).append (reads_text h.2)
  exact (reads_kept ⟨"span".toList, [("class".toList, "k".toList)]⟩ rfl hkey rfl rfl).append
    hvalue

theorem reads_headers (headers : List (String × String)) :
    Reads (headersMarkup headers) (headersElements headers) := by
  cases headers with
  | nil => exact .nil
  | cons h headers =>
    have hbreak : Reads "<br>".toList [.element ⟨"br".toList, []⟩ []] := reads_void _ rfl rfl
    have hrest := reads_flatMap headers fun h _ => hbreak.append (reads_header h)
    exact reads_kept ⟨"div".toList, [("class".toList, "kv".toList)]⟩ rfl
      ((reads_header h).append hrest) rfl rfl

theorem reads_body (payload : Option String) :
    Reads (bodyMarkup payload) (bodyElements payload) := by
  cases payload with
  | none => exact .nil
  | some payload =>
    have hread : Reads (bodyMarkup (some payload)) [.element
        ⟨"pre".toList, [("class".toList, "pl".toList)]⟩
        (content "pre".toList (textNodes payload.toList))] :=
      reads_element _ rfl (reads_text payload) rfl rfl
    rwa [content_pre] at hread

/-- The line of a card that is built, and the line that it is meant to be. -/
theorem reads_line (ok : Bool) (e : DemoEvent) {line : Line} (h : eventLine e = some line) :
    ∃ cs, lineMarkup (if ok then "ok" else "err") e = some cs ∧
      Reads cs (lineElements (if ok then "ok" else "err") line) := by
  have hmono : ∀ {body : List Char} {nodes : List Node}, Reads body nodes →
      Reads ("<span class=\"mono\">".toList ++ body ++ "</span>".toList)
        [classed "span" "mono" nodes] := fun hbody => reads_kept _ rfl hbody rfl rfl
  unfold eventLine at h
  unfold lineMarkup
  by_cases hrequest : isRequest e.kind = true
  · rw [if_pos hrequest] at h ⊢
    simp only [Option.bind_eq_bind, Option.bind_eq_some_iff, Option.pure_def] at h
    obtain ⟨method, hmethod, path, hpath, hline⟩ := h
    cases hline
    simp only [hmethod, hpath, Option.bind_eq_bind, Option.bind_some, Option.pure_def,
      Option.some.injEq, exists_eq_left']
    have htext : Reads (escape method.toList ++ " ".toList ++ escape path.toList)
        (textNodes (method ++ " " ++ path).toList) := by
      rw [textNodes_append, textNodes_append]
      exact ((reads_text method).append (reads_plain (by decide))).append (reads_text path)
    exact hmono htext
  · rw [if_neg hrequest] at h ⊢
    simp only [Option.bind_eq_bind, Option.bind_eq_some_iff, Option.pure_def] at h
    obtain ⟨status, hstatus, method, hmethod, path, hpath, hline⟩ := h
    cases hline
    simp only [hstatus, hmethod, hpath, Option.bind_eq_bind, Option.bind_some, Option.pure_def,
      Option.some.injEq, exists_eq_left']
    have hbadge : Reads (("<span class=\"st ".toList ++ (if ok then "ok" else "err").toList ++
        "\">".toList) ++ escape status.toList ++ "</span>".toList)
          [classed "span" ("st " ++ if ok then "ok" else "err") (textNodes status.toList)] := by
      cases ok <;> exact reads_kept _ rfl (reads_text status) rfl rfl
    exact hbadge.append (hmono (reads_text _))

theorem lineMarkup_none {cls : String} {e : DemoEvent} (h : eventLine e = none) :
    lineMarkup cls e = none := by
  unfold eventLine at h
  unfold lineMarkup
  by_cases hrequest : isRequest e.kind = true
  · rw [if_pos hrequest] at h ⊢
    cases hmethod : esc (orEmpty e.method) with
    | none => rfl
    | some method =>
      cases hpath : esc (orEmpty e.path) with
      | none => rfl
      | some path => simp [hmethod, hpath] at h
  · rw [if_neg hrequest] at h ⊢
    cases hstatus : esc e.status with
    | none => rfl
    | some status =>
      cases hmethod : esc (orEmpty e.method) with
      | none => rfl
      | some method =>
        cases hpath : esc (orEmpty e.path) with
        | none => rfl
        | some path => simp [hstatus, hmethod, hpath] at h

/-- The markup of a card is read as its element, and there is none without it. -/
theorem read_eventMarkup {time : Json → String} (htime : ∀ ts, Plain (time ts).toList)
    (succeeded : Option Json → Bool) (e : DemoEvent) :
    (eventMarkup succeeded time e).bind read =
      (eventCard e).map fun card => [cardElement (statusClass succeeded e) (time e.ts) card] := by
  unfold eventMarkup eventCard
  cases hline : eventLine e with
  | none => simp [lineMarkup_none hline]
  | some line =>
    obtain ⟨cs, hcs, hread⟩ := reads_line (succeeded e.status) e hline
    have hmarkup : lineMarkup (statusClass succeeded e) e = some cs := hcs
    cases hheaders : eventHeaders e.headers with
    | none => simp [hmarkup]
    | some headers =>
      cases hsource : esc (some e.source) with
      | none => simp [hmarkup]
      | some source =>
        cases hactor : esc (some e.actor) with
        | none => simp [hmarkup]
        | some actor =>
          simp only [hmarkup, Option.bind_eq_bind, Option.bind_some, Option.pure_def,
            Option.map_some]
          have hspans : Reads ("<span class=\"actor\">".toList ++ escape actor.toList ++
              "</span>".toList ++ ("<span class=\"ts\">".toList ++ (time e.ts).toList ++
                "</span>".toList))
              ([classed "span" "actor" (textNodes actor.toList)] ++
                [classed "span" "ts" (textNodes (time e.ts).toList)]) :=
            (reads_kept _ rfl (reads_text actor) rfl rfl).append
              (reads_kept _ rfl (reads_plain (htime e.ts)) rfl rfl)
          have htop : Reads ("<div class=\"ev-top\">".toList ++ _ ++ "</div>".toList)
              [classed "div" "ev-top" _] := reads_kept _ rfl hspans rfl rfl
          have hbody : Reads ("<div class=\"ev-line\">".toList ++ cs ++ "</div>".toList)
              [classed "div" "ev-line" _] := reads_kept _ rfl hread rfl rfl
          have hchildren := ((htop.append hbody).append (reads_headers headers)).append
            (reads_body (eventPayload e.payload))
          have hfirst : steps .data ("<div class=\"ev ".toList ++ escape source.toList ++
              "\">".toList) =
                some (.data,
                  [.start ⟨"div".toList, [("class".toList, ("ev " ++ source).toList)]⟩]) := by
            rw [String.toList_append]
            exact steps_escaped_value ⟨"div".toList, []⟩ "class".toList "ev ".toList rfl
              fun _ => rfl
          exact (reads_kept _ hfirst hchildren rfl rfl).read

end CardReading

section Users

/-- `[u.givenName, u.familyName].filter(Boolean).join(' ') || '—'` -/
def fullName (u : DemoUser) : String :=
  let name := " ".intercalate ((u.givenName.toList ++ u.familyName.toList).filter (· ≠ ""))
  if name = "" then "—" else name

def chipMarkup (group : String) : List Char :=
  "<span class=\"chip\">".toList ++ escape group.toList ++ "</span>".toList

def groupsMarkup : List String → List Char
  | [] => "<span class=\"mono\">".toList ++ "—".toList ++ "</span>".toList
  | g :: groups => (g :: groups).flatMap chipMarkup

def badgeMarkup (active : Bool) : List Char :=
  if active then "<span class=\"badge on\">".toList ++
    ("<span class=\"d\">".toList ++ [] ++ "</span>".toList ++ "Active".toList) ++ "</span>".toList
  else "<span class=\"badge off\">".toList ++
    ("<span class=\"d\">".toList ++ [] ++ "</span>".toList ++ "Deactivated".toList) ++
      "</span>".toList

/-- `u.email ? esc(u.email) : '<span class="mono">—</span>'` -/
def emailMarkup (email : Option String) : List Char :=
  match email.filter (· ≠ "") with
  | some email => escape email.toList
  | none => "<span class=\"mono\">".toList ++ "—".toList ++ "</span>".toList

/-- `u.externalId ? esc(u.externalId) : '—'` -/
def externalIdMarkup (externalId : Option String) : List Char :=
  match externalId.filter (· ≠ "") with
  | some externalId => escape externalId.toList
  | none => "—".toList

def cellMarkup (first : String) (content : List Char) : List Char :=
  first.toList ++ content ++ "</td>".toList

/-- The row of a user in `renderUsers`. -/
def rowMarkup (fmt : String → String) (isNew : Bool) (u : DemoUser) : List Char :=
  ("<tr class=\"".toList ++ (if isNew then "new" else "").toList ++ "\">".toList) ++
    (cellMarkup "<td>" (badgeMarkup u.active) ++
      cellMarkup "<td class=\"name\">" (escape u.userName.toList) ++
      cellMarkup "<td>" (escape (fullName u).toList) ++
      cellMarkup "<td class=\"email\">" (emailMarkup u.email) ++
      cellMarkup "<td>" (groupsMarkup u.groups) ++
      cellMarkup "<td class=\"mono\">" (externalIdMarkup u.externalId) ++
      cellMarkup "<td class=\"mono\">" (fmt u.createdAt).toList) ++
    "</tr>".toList

def dash : List Node := [classed "span" "mono" (textNodes "—".toList)]

def groupsElements : List String → List Node
  | [] => dash
  | g :: groups => (g :: groups).flatMap fun g => [classed "span" "chip" (textNodes g.toList)]

def badgeElement (active : Bool) : Node :=
  classed "span" (if active then "badge on" else "badge off")
    (classed "span" "d" [] :: textNodes (if active then "Active" else "Deactivated").toList)

def emailElements (email : Option String) : List Node :=
  match email.filter (· ≠ "") with
  | some email => textNodes email.toList
  | none => dash

def externalIdElements (externalId : Option String) : List Node :=
  textNodes ((externalId.filter (· ≠ "")).getD "—").toList

def cell (children : List Node) : Node := .element ⟨"td".toList, []⟩ children

/-- The row that is meant: seven cells. -/
def rowElement (fmt : String → String) (isNew : Bool) (u : DemoUser) : Node :=
  classed "tr" (if isNew then "new" else "")
    [cell [badgeElement u.active], classed "td" "name" (textNodes u.userName.toList),
      cell (textNodes (fullName u).toList), classed "td" "email" (emailElements u.email),
      cell (groupsElements u.groups), classed "td" "mono" (externalIdElements u.externalId),
      classed "td" "mono" (textNodes (fmt u.createdAt).toList)]

theorem reads_dash :
    Reads ("<span class=\"mono\">".toList ++ "—".toList ++ "</span>".toList) dash :=
  reads_kept _ rfl (reads_plain (by decide)) rfl rfl

theorem reads_groups (groups : List String) :
    Reads (groupsMarkup groups) (groupsElements groups) := by
  cases groups with
  | nil => exact reads_dash
  | cons g groups =>
    refine reads_flatMap (g :: groups) fun g _ => ?_
    exact reads_kept _ rfl (reads_text g) rfl rfl

theorem reads_badge (active : Bool) : Reads (badgeMarkup active) [badgeElement active] := by
  have hdot :
      Reads ("<span class=\"d\">".toList ++ [] ++ "</span>".toList) [classed "span" "d" []] :=
    reads_kept _ rfl .nil rfl rfl
  cases active with
  | true => exact reads_kept _ rfl (hdot.append (reads_plain (by decide))) rfl rfl
  | false => exact reads_kept _ rfl (hdot.append (reads_plain (by decide))) rfl rfl

theorem reads_email (email : Option String) : Reads (emailMarkup email) (emailElements email) := by
  unfold emailMarkup emailElements
  cases email.filter (· ≠ "") with
  | none => exact reads_dash
  | some email => exact reads_text email

theorem reads_externalId (externalId : Option String) :
    Reads (externalIdMarkup externalId) (externalIdElements externalId) := by
  unfold externalIdMarkup externalIdElements
  cases externalId.filter (· ≠ "") with
  | none => exact reads_plain (by decide)
  | some externalId => exact reads_text externalId

theorem reads_cell {first : String} {tag : Tag} {content : List Char} {nodes : List Node}
    (hfirst : steps .data first.toList = some (.data, [.start tag])) (htag : tag.name = "td".toList)
    (h : Reads content nodes) : Reads (cellMarkup first content) [.element tag nodes] :=
  reads_kept tag hfirst h (by rw [htag]; rfl) (by rw [htag]; rfl)

theorem reads_td {content : List Char} {nodes : List Node} (h : Reads content nodes) :
    Reads (cellMarkup "<td>" content) [cell nodes] := reads_cell rfl rfl h

theorem reads_mono {content : List Char} {nodes : List Node} (h : Reads content nodes) :
    Reads (cellMarkup "<td class=\"mono\">" content) [classed "td" "mono" nodes] :=
  reads_cell rfl rfl h

theorem reads_row {fmt : String → String} (hfmt : ∀ iso, Plain (fmt iso).toList) (isNew : Bool)
    (u : DemoUser) : Reads (rowMarkup fmt isNew u) [rowElement fmt isNew u] := by
  have hname : Reads (cellMarkup "<td class=\"name\">" (escape u.userName.toList))
      [classed "td" "name" (textNodes u.userName.toList)] := reads_cell rfl rfl (reads_text _)
  have hemail : Reads (cellMarkup "<td class=\"email\">" (emailMarkup u.email))
      [classed "td" "email" (emailElements u.email)] := reads_cell rfl rfl (reads_email u.email)
  have hcells := ((((((reads_td (reads_badge u.active)).append hname).append
    (reads_td (reads_text (fullName u)))).append hemail).append
    (reads_td (reads_groups u.groups))).append (reads_mono (reads_externalId u.externalId))).append
    (reads_mono (reads_plain (hfmt u.createdAt)))
  cases isNew <;> exact reads_kept _ rfl hcells rfl rfl

/-- The row of a table without users. -/
def noUsers : List Char :=
  "<tr>".toList ++ ("<td colspan=\"7\" class=\"empty\">".toList ++
    (("<div class=\"big\">".toList ++ "No users provisioned yet".toList ++ "</div>".toList) ++
      "Assign a user to the SCIM app in Okta and they will appear here.".toList) ++
    "</td>".toList) ++ "</tr>".toList

def noUsersElement : Node :=
  .element ⟨"tr".toList, []⟩
    [.element ⟨"td".toList, [("colspan".toList, "7".toList), ("class".toList, "empty".toList)]⟩
      (classed "div" "big" (textNodes "No users provisioned yet".toList) ::
        textNodes "Assign a user to the SCIM app in Okta and they will appear here.".toList)]

theorem reads_noUsers : Reads noUsers [noUsersElement] := by
  have hbig : Reads ("<div class=\"big\">".toList ++ "No users provisioned yet".toList ++
      "</div>".toList) [classed "div" "big" (textNodes "No users provisioned yet".toList)] :=
    reads_kept _ rfl (reads_plain (by decide)) rfl rfl
  have htext := reads_plain (show Plain
    "Assign a user to the SCIM app in Okta and they will appear here.".toList by decide)
  have hcell : Reads ("<td colspan=\"7\" class=\"empty\">".toList ++ _ ++ "</td>".toList) _ :=
    reads_kept ⟨"td".toList, [("colspan".toList, "7".toList), ("class".toList, "empty".toList)]⟩
      rfl (hbig.append htext) rfl rfl
  exact reads_kept _ rfl hcell rfl rfl

/-- The rows of the table, with the users that are marked as new. -/
def rowsMarkup (fmt : String → String) : List (Bool × DemoUser) → List Char
  | [] => noUsers
  | row :: rows => (row :: rows).flatMap fun row => rowMarkup fmt row.1 row.2

def rowsElements (fmt : String → String) : List (Bool × DemoUser) → List Node
  | [] => [noUsersElement]
  | row :: rows => (row :: rows).map fun row => rowElement fmt row.1 row.2

theorem reads_rows {fmt : String → String} (hfmt : ∀ iso, Plain (fmt iso).toList)
    (rows : List (Bool × DemoUser)) : Reads (rowsMarkup fmt rows) (rowsElements fmt rows) := by
  cases rows with
  | nil => exact reads_noUsers
  | cons row rows =>
    rw [rowsElements, List.map_eq_flatMap]
    exact reads_flatMap (row :: rows) fun row _ => reads_row hfmt row.1 row.2

end Users

section Guide

/-- `val`: a value of the setup guide that a click copies. -/
def val (v : String) : List Char :=
  ("<code class=\"copy\" data-v=\"".toList ++ escape v.toList ++
    "\" title=\"Click to copy\">".toList) ++ escape v.toList ++ "</code>".toList

/-- The element shows the value and copies the same value. -/
def valElement (v : String) : Node :=
  .element ⟨"code".toList, [("class".toList, "copy".toList), ("data-v".toList, v.toList),
    ("title".toList, "Click to copy".toList)]⟩ (textNodes v.toList)

theorem reads_val (v : String) : Reads (val v) [valElement v] := by
  have hfirst : steps .data "<code class=\"copy\" data-v=\"".toList =
      some (.value ⟨"code".toList, [("class".toList, "copy".toList)]⟩ "data-v".toList [], []) := rfl
  have hvalue := steps_trans hfirst (steps_value_escape _ _ [] v.toList)
  have hstart : steps .data ("<code class=\"copy\" data-v=\"".toList ++ escape v.toList ++
      "\" title=\"Click to copy\">".toList) = some (.data, [.start
        ⟨"code".toList, [("class".toList, "copy".toList), ("data-v".toList, v.toList),
          ("title".toList, "Click to copy".toList)]⟩]) := steps_trans hvalue rfl
  exact reads_kept _ hstart (reads_text v) rfl rfl

end Guide

/-- No event, user or setting can put markup of its own into the page. -/
theorem page_markup_inert {fmt : String → String} {time : Json → String}
    (hfmt : ∀ iso, Plain (fmt iso).toList) (htime : ∀ ts, Plain (time ts).toList) :
    (∀ succeeded e, (eventMarkup succeeded time e).bind read =
      (eventCard e).map fun card => [cardElement (statusClass succeeded e) (time e.ts) card]) ∧
      (∀ rows, read (rowsMarkup fmt rows) = some (rowsElements fmt rows)) ∧
      ∀ v, read (val v) = some [valElement v] :=
  ⟨read_eventMarkup htime, fun rows => (reads_rows hfmt rows).read, fun v => (reads_val v).read⟩

/-- An event whose fields are markup. -/
def scriptEvent : DemoEvent where
  ts := .str "now"
  source := .str "\"><script>"
  actor := .str "<b>"
  kind := .str "request"
  method := some (.str "GET")
  path := some (.str "/<i>&lt;")
  status := none
  headers := some (.obj [("<", .str "\"")])
  payload := some (.str "</pre>")
  seq := 1

theorem page_markup_inert_sample :
    (eventMarkup (fun _ => true) (fun _ => "12:00:00") scriptEvent).bind read =
      some [cardElement "ok" "12:00:00" ⟨"ev \"><script>", "<b>", .str "now",
        .request "GET /<i>&lt;", [("<", "\"")], some "</pre>"⟩] := by
  have hplain : Plain "12:00:00".toList := by decide
  rw [(@page_markup_inert (fun _ => "12:00:00") _ (fun _ => hplain) fun _ => hplain).1]
  rfl

end OktaScim.PageMarkup
