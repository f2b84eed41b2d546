import Sentinel.Library.Url

/-! `CookieCSRFMiddleware`: which requests of a browser go on to a service.

A request that can change something and carries a session must say that it comes from a
page of ours. Browsers say where a request comes from, in the `Origin` header or, without
it, in `Referer`, and no page can make them say something else: a page discloses its own
origin, or nothing. -/
namespace Sentinel.Common.Http
open Library

/-- What the middleware reads of a request. -/
structure Request where
  method : String
  cookies : String → Option String
  origin : Option String
  referer : Option String

structure Settings where
  corsOrigins : List String
  sessionCookieName : String
  /-- What Python accepts as a network location. -/
  netloc : List Char → Bool

/-- `value.rstrip("/")`. -/
def rstrip (value : String) : String := String.ofList (value.toList.reverse.dropWhile (· = '/')).reverse

def allowedOrigins (settings : Settings) : List String := settings.corsOrigins.map rstrip

/-- `f"{parsed.scheme}://{parsed.netloc}" if parsed and parsed.netloc else ""`. -/
def parsedOrigin (parsed : Option (List Char × List Char)) : String :=
  match parsed with
  | some (scheme, netloc) => if netloc.isEmpty then "" else String.ofList (scheme ++ ':' :: '/' :: '/' :: netloc)
  | none => ""

/-- `none` when `urlparse` raises. -/
def candidate (settings : Settings) (r : Request) : Option String :=
  match r.origin.filter (· ≠ ""), r.referer.filter (· ≠ "") with
  | some origin, _ => some (rstrip origin)
  | none, some referer => (Url.urlparse settings.netloc referer.toList).map fun parsed => parsedOrigin (some parsed)
  | none, none => some (parsedOrigin none)

inductive Verdict where
  | next
  | rejected (status : Nat) (detail : String)
  /-- The middleware raises. -/
  | failed
  deriving DecidableEq

def dispatch (settings : Settings) (r : Request) : Verdict :=
  if r.method ∉ ["GET", "HEAD", "OPTIONS"] ∧ (r.cookies settings.sessionCookieName).isSome then
    match candidate settings r with
    | none => .failed
    | some candidate =>
      if candidate ∈ allowedOrigins settings then .next else .rejected 403 "Cross-site request rejected"
  else .next

/-! ### What browsers disclose -/

structure Page where
  origin : Url.Origin
  path : List Char
  separated : path = [] ∨ path.head?.any Url.delimiter

def Page.site (p : Page) : String := String.ofList p.origin.text

def Page.url (p : Page) : String := String.ofList (p.origin.text ++ p.path)

/-- What a request says of the page it comes from. -/
inductive Disclosure where
  | origin (referred : Option String)
  /-- The page has no origin, or keeps it to itself. -/
  | null (referred : Option String)
  | referer
  /-- `Referer`, cut to the origin. -/
  | bareReferer
  | nothing

def Disclosure.origin? (p : Page) : Disclosure → Option String
  | .origin _ => some p.site
  | .null _ => some "null"
  | _ => none

def Disclosure.referer? (p : Page) : Disclosure → Option String
  | .origin referred | .null referred => referred
  | .referer => some p.url
  | .bareReferer => some (String.ofList (p.origin.text ++ ['/']))
  | .nothing => none

/-! ### What the middleware makes of it -/

section Candidate
variable {settings : Settings} {r : Request} {p : Page}

theorem text_ne_nil (o : Url.Origin) (rest : List Char) : o.text ++ rest ≠ [] := by simp [Url.Origin.text]

theorem ofList_ne_empty {text : List Char} (h : text ≠ []) : String.ofList text ≠ "" := by
  intro heq
  exact h (by simpa using congrArg String.toList heq)

theorem site_ne_empty (p : Page) : p.site ≠ "" := ofList_ne_empty (by simp [Url.Origin.text])

/-- A network location does not end in a slash. -/
theorem rstrip_site (p : Page) : rstrip p.site = p.site := by
  obtain ⟨init, last, hlast⟩ : ∃ init last, p.origin.netloc = init ++ [last] :=
    ⟨_, _, (List.dropLast_append_getLast p.origin.located).symm⟩
  have hslash : last ≠ '/' := by
    have hplain := (p.origin.netlocChar (c := last) (by simp [hlast])).1
    rintro rfl
    exact absurd hplain (by decide)
  have hreverse : p.origin.text.reverse =
      last :: (p.origin.scheme ++ ':' :: '/' :: '/' :: init).reverse := by
    simp [Url.Origin.text, hlast]
  simp only [rstrip, Page.site, String.toList_ofList, hreverse]
  rw [List.dropWhile_cons_of_neg (by simpa using hslash), ← hreverse, List.reverse_reverse]

theorem candidate_of_origin {origin : String} (hne : origin ≠ "") (h : r.origin = some origin) :
    candidate settings r = some (rstrip origin) := by
  rw [candidate, h, Option.filter_some, if_pos (decide_eq_true hne)]

theorem candidate_of_referer {path : List Char} (hpath : path = [] ∨ path.head?.any Url.delimiter)
    (horigin : r.origin = none) (hreferer : r.referer = some (String.ofList (p.origin.text ++ path))) :
    candidate settings r = if settings.netloc p.origin.netloc then some p.site else none := by
  have hne : String.ofList (p.origin.text ++ path) ≠ "" := ofList_ne_empty (text_ne_nil _ _)
  simp only [candidate, horigin, hreferer, Option.filter_none, Option.filter_some, hne, ne_eq, not_false_eq_true,
    decide_true, if_true, String.toList_ofList, Url.urlparse_origin _ _ hpath]
  split_ifs
  · simp [parsedOrigin, p.origin.located, Page.site, Url.Origin.text]
  · rfl

/-- The middleware sees the site of the page, or none. -/
theorem candidate_cases {disclosure : Disclosure} (horigin : r.origin = disclosure.origin? p)
    (hreferer : r.referer = disclosure.referer? p) {c : String} (h : candidate settings r = some c) :
    c = p.site ∨ c = "null" ∨ c = "" := by
  have hparsed : ∀ {path : List Char}, path = [] ∨ path.head?.any Url.delimiter → r.origin = none →
      r.referer = some (String.ofList (p.origin.text ++ path)) → c = p.site := by
    intro path hpath hnone hsome
    rw [candidate_of_referer hpath hnone hsome] at h
    split_ifs at h
    exact (Option.some.inj h).symm
  cases disclosure with
  | origin referred =>
    rw [candidate_of_origin (site_ne_empty p) horigin, rstrip_site] at h
    exact .inl (Option.some.inj h).symm
  | null referred =>
    have hnull : rstrip "null" = "null" := by decide
    rw [candidate_of_origin (by decide) horigin, hnull] at h
    exact .inr (.inl (Option.some.inj h).symm)
  | referer => exact .inl (hparsed p.separated horigin hreferer)
  | bareReferer => exact .inl (hparsed (.inr rfl) horigin hreferer)
  | nothing =>
    rw [candidate, horigin, hreferer] at h
    exact .inr (.inr (Option.some.inj h).symm)

end Candidate

/-- The origins allowed are origins. -/
structure Settings.Sound (settings : Settings) : Prop where
  null : "null" ∉ allowedOrigins settings
  empty : "" ∉ allowedOrigins settings

section Dispatch
variable {settings : Settings} {r : Request} {p : Page} {disclosure : Disclosure}

/-- **Only our pages get through in the name of a session.** -/
theorem site_allowed (h : settings.Sound) (horigin : r.origin = disclosure.origin? p)
    (hreferer : r.referer = disclosure.referer? p) (hmethod : r.method ∉ ["GET", "HEAD", "OPTIONS"])
    (hsession : (r.cookies settings.sessionCookieName).isSome) (hnext : dispatch settings r = .next) :
    p.site ∈ allowedOrigins settings := by
  rw [dispatch, if_pos ⟨hmethod, hsession⟩] at hnext
  cases hcandidate : candidate settings r with
  | none =>
    rw [hcandidate] at hnext
    cases hnext
  | some c =>
    simp only [hcandidate] at hnext
    split_ifs at hnext with hallowed
    rcases candidate_cases horigin hreferer hcandidate with rfl | rfl | rfl
    · exact hallowed
    · exact absurd hallowed h.null
    · exact absurd hallowed h.empty

end Dispatch

end Sentinel.Common.Http
