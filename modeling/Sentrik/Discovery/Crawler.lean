import Sentrik.Discovery.Inventory
import Sentrik.Library.Regex
import Sentrik.Library.UrlJoin

/-!
# The crawler

A breadth-first search by GET requests: the pages of the seed's host, up to a number of pages and a depth. A
page gives one endpoint for itself, one for each form, and links that are queued.

The loop takes the next entry of the queue that is to be fetched (`next`), so each round fetches a page, and
the pages that may still be fetched are its measure. Of a response it uses what `visit` computes.

The loop catches the two exceptions of the client that say a page was not reached. Everything else, also a
link that cannot be split, leaves `crawl` and takes all endpoints with it.
-/

namespace Sentrik

open Interaction (request attempt)

namespace Discovery

section

variable [u : UnicodeTables] [w : WordTables]

/-! ### Patterns -/

def isQuote (c : Char) : Bool := c == '"' || c == '\''

/-- `\s*=\s*["']` -/
def assigns : Regex :=
  .all [.many u.isSpace true, .char (· == '='), .many u.isSpace true, .char isQuote]

def _HREF : Regex := .all [
  .alt (.word "href".toList) (.alt (.word "src".toList) (.word "action".toList)), assigns,
  .group (.plus (fun c ↦ !isQuote c && c != '#') true), .char isQuote]

def _FORM : Regex := .all [
  .word "<form".toList, .edge isWord, .many (· != '>') true, .char (· == '>'),
  .group (.many (fun _ ↦ true) false), .word "</form>".toList]

/-- A quoted attribute. -/
def quoted (name : Text) : Regex := .all [
  .word name, assigns, .group (.many (!isQuote ·) true), .char isQuote]

def _FORM_ACTION : Regex := quoted "action".toList

def _FORM_METHOD : Regex := quoted "method".toList

def _INPUT : Regex := .all [
  .word "<input".toList, .edge isWord, .many (· != '>') true, .edge isWord, .word "name".toList, assigns,
  .group (.plus (!isQuote ·) true), .char isQuote]

/-! ### One page -/

variable [d : DigitTables]

/-- `urljoin` and the splitting of URLs raise one exception. -/
def joined (base url : Text) : Except Raised Text := (Url.urljoin base url).mapError fun _ ↦ .ValueError

omit w d in
/-- `rstrip("/")` -/
def rstripSlash (t : Text) : Text := (t.reverse.dropWhile (· == '/')).reverse

def _normalize (url : Text) : Except Raised Text := do
  let parts ← (Url.urlsplit url).mapError fun _ ↦ .ValueError
  return rstripSlash (parts.scheme ++ "://".toList ++ parts.netloc ++ parts.path)

/-- The endpoint of a page that was fetched. -/
def pageEndpoint (url : Text) : Except Raised DiscoveredEndpoint :=
  DiscoveredEndpoint.post_init { method := "GET".toList, url, provenance := .CRAWL }

/-- The parameter of an input of a form. -/
def formParam (method name : Text) : Dict := Dict.recipe [
  ("name", .str name),
  ("in", .text (if method ≠ "GET".toList then "body" else "query")),
  ("type", .text "string"),
  ("required", .bool false)]

/-- The endpoint of a form, if it is on the host of the seed. -/
def formEndpoint (seed_host url form_html : Text) : Except Raised (Option DiscoveredEndpoint) := do
  let action ←
    match Regex.search _FORM_ACTION form_html with
    | some value => joined url value
    | none => pure url
  let method := u.upper ((Regex.search _FORM_METHOD form_html).getD "GET".toList)
  if (← _host action) ≠ seed_host then return none
  else
    let names := Regex.findall _INPUT form_html
    return some (← DiscoveredEndpoint.post_init {
      method
      url := action
      provenance := .CRAWL
      parameters := names.map (formParam method) })

/-- The entries of the queue for one link: none if it is no link to a page of the host, or a known one. -/
def linkEntries (seed_host url : Text) (depth : ℕ) (seen : List Text) (href : Text) :
    Except Raised (List (Text × ℕ)) := do
  let nxt ← joined url href
  if ¬(Text.startswith nxt "http://".toList || Text.startswith nxt "https://".toList) then return []
  else if (← _host nxt) ≠ seed_host then return []
  else if (← _normalize nxt) ∈ seen then return []
  else return [(nxt, depth + 1)]

/-- The response is a page with forms and links. -/
def isHtml (resp : GuardedResponse) : Bool :=
  Text.hasInfix "html".toList (u.lower (resp.header "content-type"))

/-- What a response is good for: endpoints, and entries of the queue. -/
def visit (seed_host : Text) (max_depth : ℤ) (url : Text) (depth : ℕ) (seen : List Text)
    (resp : GuardedResponse) : Except Raised (List DiscoveredEndpoint × List (Text × ℕ)) := do
  let page ← pageEndpoint url
  if ¬isHtml resp then return ([page], [])
  else
    let forms ← (Regex.findall _FORM resp.text).mapM (formEndpoint seed_host url)
    let entries ←
      if (depth : ℤ) < max_depth then
        (Regex.findall _HREF resp.text).mapM (linkEntries seed_host url depth seen)
      else pure []
    return (page :: forms.filterMap id, entries.flatten)

/-! ### The search -/

/-- The next entry of the queue that is to be fetched, with its normalized URL, and the queue behind it. -/
def next (max_depth : ℤ) (seen : List Text) :
    List (Text × ℕ) → Except Raised (Option ((Text × ℕ) × Text × List (Text × ℕ)))
  | [] => .ok none
  | (url, depth) :: queue => do
    let norm ← _normalize url
    if norm ∈ seen ∨ (depth : ℤ) > max_depth then next max_depth seen queue
    else return some ((url, depth), norm, queue)

/-- What the crawler has found. -/
structure Found where
  endpoints : List DiscoveredEndpoint := []
  warnings : List String := []

/-- The rounds that are left. -/
def crawlFrom (seed_host : Text) (max_depth : ℤ) :
    ℕ → List Text → List (Text × ℕ) → Found → Program Found
  | 0, _, _, found => return found
  | pages + 1, seen, queue, found => do
    match ← MonadExcept.ofExcept (next max_depth seen queue) with
    | none => return found
    | some ((url, depth), norm, queue) =>
      let seen := norm :: seen
      match ← attempt (request { url := .str url }) with
      | .error (.client (.ScopeViolation reason ..)) =>
        let warning := s!"crawl blocked by scope: {reason}"
        crawlFrom seed_host max_depth pages seen queue { found with warnings := found.warnings ++ [warning] }
      | .error (.client (.TargetUnreachable message)) =>
        let warning := s!"crawl unreachable {String.ofList url}: {message}"
        crawlFrom seed_host max_depth pages seen queue { found with warnings := found.warnings ++ [warning] }
      | .error exc => throw exc
      | .ok resp =>
        let (endpoints, entries) ← MonadExcept.ofExcept (visit seed_host max_depth url depth seen resp)
        crawlFrom seed_host max_depth pages seen (queue ++ entries)
          { found with endpoints := found.endpoints ++ endpoints }

/-- Crawl from a seed. -/
def crawl (seed_url : Text) (max_pages max_depth : ℤ) : Program Found := do
  let seed_host ← MonadExcept.ofExcept (_host seed_url)
  crawlFrom seed_host max_depth max_pages.toNat [] [(seed_url, 0)] {}

end

end Discovery

end Sentrik
