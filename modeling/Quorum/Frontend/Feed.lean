import Quorum.Foundation.Xml
import Quorum.Frontend.Proposals

/-!
# The feed

The feed of the site is an XML document that holds titles and descriptions which anybody can
choose. A reader of XML that knows nothing of the site finds one entry for every proposal, newest
first, with title and description as they are stored, save for line ends; the link of an entry
leads to its proposal ever after. But a single control character in one of the texts keeps it from
reading the feed at all.
-/

namespace Quorum.Frontend

open Foundation Governor
open Sdk (Native Library Network countAt Known Sight)
open Sdk.Client (chainAt)

/-! ## Writing the feed -/

/-- The replacements of the feed, and the symbols that enclose a tag. -/
def xmlScheme : XmlScheme where
  rules := [⟨38, units "&amp;"⟩, ⟨60, units "&lt;"⟩, ⟨62, units "&gt;"⟩, ⟨34, units "&quot;"⟩,
    ⟨39, units "&apos;"⟩]
  layered := by decide +kernel
  left := 60
  right := 62
  opens := by decide +kernel
  left_eq := rfl
  right_eq := rfl
  ampersand := by decide +kernel
  closes := by decide +kernel
  entities := by decide +kernel

/-- Escapes the special characters of a text. -/
def escapeXml (text : JsString) : JsString := replaceEach xmlScheme.rules text

/-- The text of the date of an ISO text. -/
def pubDate (iso : JsString) : JsString :=
  match parseISO iso with
  | some t => toUTCString t
  | none => units "Invalid Date"

def feedLink (siteUrl : JsString) (proposal : UiProposal) : JsString :=
  siteUrl ++ (units "/proposals/" ++ proposal.id)

/-- The entry of a proposal. -/
def feedItem (siteUrl : JsString) (proposal : UiProposal) : JsString :=
  let link := feedLink siteUrl proposal
  units "    <item>\n      <title>" ++ (escapeXml proposal.title ++
    (units "</title>\n      <link>" ++ (escapeXml link ++
      (units "</link>\n      <description>" ++ (escapeXml proposal.description ++
        (units "</description>\n      <pubDate>" ++ (pubDate proposal.startTime ++
          (units "</pubDate>\n      <guid isPermaLink=\"true\">" ++ (escapeXml link ++
            units "</guid>\n    </item>")))))))))

/-- `texts.join(separator)`. -/
def join (separator : JsString) : List JsString → JsString
  | [] => []
  | [text] => text
  | text :: texts => text ++ (separator ++ join separator texts)

/-- How much later the second proposal starts than the first, as a comparison for sorting. A date
that is no date makes them equal. -/
def laterStart (a b : UiProposal) : ℤ :=
  match parseISO b.startTime, parseISO a.startTime with
  | some later, some earlier => later - earlier
  | _, _ => 0

/-- The proposals sorted by their start, the latest first. Sorting is stable. -/
def sortByStart (proposals : List UiProposal) : List UiProposal :=
  proposals.mergeSort fun a b => laterStart a b ≤ 0

/-- The beginning of a feed, up to its link. -/
def feedOpening : JsString :=
  units "<?xml version=\"1.0\" encoding=\"UTF-8\"?>\n<rss version=\"2.0\">\n  <channel>\n    " ++
    units "<title>Quorum Governance Proposals</title>\n    <link>"

/-- What stands between the link of a feed and its date. -/
def feedDescription : JsString :=
  units "</link>\n    <description>On-chain governance proposals for the Stellar and Soroban " ++
    units "ecosystem</description>\n    <language>en</language>\n    <lastBuildDate>"

/-- The feed up to its entries. -/
def feedHeader (siteUrl : JsString) (now : ℤ) : JsString :=
  feedOpening ++ (escapeXml siteUrl ++
    (feedDescription ++ (toUTCString now ++ units "</lastBuildDate>\n")))

def feedFooter : JsString := units "  </channel>\n</rss>"

/-- A response: how long it may be cached, in seconds, and its text. -/
structure FeedResponse where
  maxAge : ℕ
  body : JsString

/-- The feed of the proposals, or the empty feed if they cannot be read. -/
def feed (siteUrl : JsString) (now : ℤ) (proposals : Except JsString (List UiProposal)) :
    FeedResponse :=
  match proposals with
  | .ok proposals =>
    let items := join (units "\n") ((sortByStart proposals).map (feedItem siteUrl))
    ⟨3600, feedHeader siteUrl now ++ (items ++ (units "\n" ++ feedFooter))⟩
  | .error _ => ⟨60, feedHeader siteUrl now ++ feedFooter⟩

/-! ## Reading a feed -/

/-- An entry as a reader takes it from a feed. -/
structure FeedEntry where
  title : JsString
  link : JsString
  description : JsString
  pubDate : JsString
  guid : JsString
  deriving DecidableEq

/-- The text of the first element with the name. -/
def elementText (name : JsString) (pieces : List (JsString × JsString)) : Option JsString :=
  (pieces.find? fun piece => piece.1.takeWhile (· ≠ 32) = name).map Prod.snd

/-- The elements of each item. The first argument holds those of an item that has begun. -/
def splitItems : Option (List (JsString × JsString)) → List (JsString × JsString) →
    List (List (JsString × JsString))
  | _, [] => []
  | none, piece :: pieces =>
    if piece.1 = units "item" then splitItems (some []) pieces else splitItems none pieces
  | some elements, piece :: pieces =>
    if piece.1 = units "/item" then elements :: splitItems none pieces
    else splitItems (some (elements ++ [piece])) pieces

/-- The entry that the elements of an item make up. -/
def toEntry (elements : List (JsString × JsString)) : Option FeedEntry := do
  let title ← elementText (units "title") elements
  let link ← elementText (units "link") elements
  let description ← elementText (units "description") elements
  let pubDate ← elementText (units "pubDate") elements
  let guid ← elementText (units "guid") elements
  some ⟨title, link, description, pubDate, guid⟩

/-- The entries of a feed, if it is one. -/
def readFeed (text : JsString) : Option (List FeedEntry) :=
  (readXml text).bind fun pieces => (splitItems none pieces).mapM toEntry

/-! ## The feed as a document -/

def headerPieces (siteUrl : JsString) (now : ℤ) (gap : JsString) : List (JsString × JsString) :=
  [(units "?xml version=\"1.0\" encoding=\"UTF-8\"?", units "\n"),
    (units "rss version=\"2.0\"", units "\n  "), (units "channel", units "\n    "),
    (units "title", units "Quorum Governance Proposals"), (units "/title", units "\n    "),
    (units "link", siteUrl), (units "/link", units "\n    "),
    (units "description",
      units "On-chain governance proposals for the Stellar and Soroban ecosystem"),
    (units "/description", units "\n    "), (units "language", units "en"),
    (units "/language", units "\n    "), (units "lastBuildDate", toUTCString now),
    (units "/lastBuildDate", gap)]

/-- The entry of a proposal, as it is written. -/
def feedEntry (siteUrl : JsString) (proposal : UiProposal) : FeedEntry :=
  ⟨proposal.title, feedLink siteUrl proposal, proposal.description, pubDate proposal.startTime,
    feedLink siteUrl proposal⟩

/-- The elements of an entry, each with its closing tag. -/
def itemElements (entry : FeedEntry) : List (JsString × JsString) :=
  [(units "title", entry.title), (units "/title", units "\n      "),
    (units "link", entry.link), (units "/link", units "\n      "),
    (units "description", entry.description), (units "/description", units "\n      "),
    (units "pubDate", entry.pubDate), (units "/pubDate", units "\n      "),
    (units "guid isPermaLink=\"true\"", entry.guid), (units "/guid", units "\n    ")]

/-- A plain text is left as it is. -/
theorem escape_plain {text : JsString} (h : ∀ c ∈ text, isPlainUnit c = true) :
    xmlScheme.escape text = text := by
  have hspecial : ∀ rule ∈ xmlScheme.rules, ¬ isPlainUnit rule.symbol = true := by decide +kernel
  refine xmlScheme.escape_of_not_special fun c hc hrules => ?_
  obtain ⟨rule, hrule, heq⟩ := hrules
  exact hspecial rule hrule (heq ▸ h c hc)

/-- The text of a date has nothing to escape. -/
theorem escape_toUTCString (t : ℤ) : xmlScheme.escape (toUTCString t) = toUTCString t :=
  escape_plain fun _ => plain_toUTCString

/-- The date of an entry has nothing to escape. -/
theorem escape_pubDate (iso : JsString) : xmlScheme.escape (pubDate iso) = pubDate iso := by
  have hinvalid : xmlScheme.escape (units "Invalid Date") = units "Invalid Date" := by
    decide +kernel
  unfold pubDate
  split
  · exact escape_toUTCString _
  · exact hinvalid

/-- The feed opens with the tags of the document and the title. -/
theorem feedOpening_eq : feedOpening = xmlScheme.renderPieces
    [(units "?xml version=\"1.0\" encoding=\"UTF-8\"?", units "\n"),
      (units "rss version=\"2.0\"", units "\n  "), (units "channel", units "\n    "),
      (units "title", units "Quorum Governance Proposals"), (units "/title", units "\n    "),
      (units "link", [])] := by decide +kernel

/-- After the link come the description, the language and the date of the build. -/
theorem feedDescription_eq : feedDescription = xmlScheme.renderPieces
    [(units "/link", units "\n    "), (units "description",
        units "On-chain governance proposals for the Stellar and Soroban ecosystem"),
      (units "/description", units "\n    "), (units "language", units "en"),
      (units "/language", units "\n    "), (units "lastBuildDate", [])] := by decide +kernel

/-- The header is the beginning of a document. The text after its last tag can go on. -/
theorem feedHeader_eq (siteUrl : JsString) (now : ℤ) (gap : JsString)
    (pieces : List (JsString × JsString)) :
    feedHeader siteUrl now ++ (xmlScheme.escape gap ++ xmlScheme.renderPieces pieces) =
      xmlScheme.renderPieces (headerPieces siteUrl now (units "\n" ++ gap) ++ pieces) := by
  have hclosing : units "</lastBuildDate>\n" =
      xmlScheme.renderPieces [(units "/lastBuildDate", units "\n")] := by decide +kernel
  rw [feedHeader, feedOpening_eq, feedDescription_eq, hclosing, escapeXml]
  simp only [headerPieces, MarkupScheme.renderPieces, MarkupScheme.escape_append,
    MarkupScheme.escape_nil, escape_toUTCString, List.append_assoc, List.cons_append,
    List.nil_append]
  rfl

/-- An entry is a row of elements. -/
theorem feedItem_eq (siteUrl : JsString) (proposal : UiProposal) (gap : JsString)
    (pieces : List (JsString × JsString)) :
    feedItem siteUrl proposal ++ (xmlScheme.escape gap ++ xmlScheme.renderPieces pieces) =
      units "    " ++ xmlScheme.renderPieces ((units "item", units "\n      ") ::
        (itemElements (feedEntry siteUrl proposal) ++ (units "/item", gap) :: pieces)) := by
  have hitem : units "    <item>\n      <title>" = units "    " ++ xmlScheme.renderPieces
      [(units "item", units "\n      "), (units "title", [])] := by decide +kernel
  have hlink : units "</title>\n      <link>" = xmlScheme.renderPieces
      [(units "/title", units "\n      "), (units "link", [])] := by decide +kernel
  have hdescription : units "</link>\n      <description>" = xmlScheme.renderPieces
      [(units "/link", units "\n      "), (units "description", [])] := by decide +kernel
  have hdate : units "</description>\n      <pubDate>" = xmlScheme.renderPieces
      [(units "/description", units "\n      "), (units "pubDate", [])] := by decide +kernel
  have hguid : units "</pubDate>\n      <guid isPermaLink=\"true\">" = xmlScheme.renderPieces
      [(units "/pubDate", units "\n      "), (units "guid isPermaLink=\"true\"", [])] := by
    decide +kernel
  have hclosing : units "</guid>\n    </item>" = xmlScheme.renderPieces
      [(units "/guid", units "\n    "), (units "/item", [])] := by decide +kernel
  rw [feedItem, hitem, hlink, hdescription, hdate, hguid, hclosing]
  simp only [itemElements, feedEntry, MarkupScheme.renderPieces, MarkupScheme.escape_nil, escape_pubDate,
    List.append_assoc, List.cons_append, List.nil_append]
  rfl

def footerPieces : List (JsString × JsString) := [(units "/channel", units "\n"), (units "/rss", [])]

/-- The entries, each followed by the next one or by the end of the feed. -/
def entryPieces : List FeedEntry → List (JsString × JsString)
  | [] => footerPieces
  | entry :: entries => (units "item", units "\n      ") ::
      (itemElements entry ++
        (units "/item", if entries = [] then units "\n  " else units "\n    ") ::
          entryPieces entries)

/-- The feed closes its channel and its document. -/
theorem feedFooter_eq : feedFooter =
    xmlScheme.escape (units "  ") ++ xmlScheme.renderPieces footerPieces := by decide +kernel

/-- The entries of a feed that is not empty, and what follows them: the induction is on the entries
after the first one. -/
theorem joined_eq (siteUrl : JsString) (proposal : UiProposal) (proposals : List UiProposal) :
    join (units "\n") ((proposal :: proposals).map (feedItem siteUrl)) ++ (units "\n" ++ feedFooter) =
      units "    " ++ xmlScheme.renderPieces
        (entryPieces ((proposal :: proposals).map (feedEntry siteUrl))) := by
  have hlast : units "\n" ++ feedFooter =
      xmlScheme.escape (units "\n  ") ++ xmlScheme.renderPieces footerPieces := by decide +kernel
  have hnext : xmlScheme.escape (units "\n    ") = units "\n" ++ units "    " := by decide +kernel
  induction proposals generalizing proposal with
  | nil =>
    rw [List.map_cons, List.map_nil, join, hlast, feedItem_eq]
    rfl
  | cons next proposals ih =>
    rw [List.map_cons, List.map_cons, join, ← List.map_cons, List.append_assoc, List.append_assoc,
      ih next, ← List.append_assoc (units "\n"), ← hnext, feedItem_eq]
    · rfl
    · simp

/-- A feed as a document. -/
def feedPieces (siteUrl : JsString) (now : ℤ) (gap : JsString) (entries : List FeedEntry) :
    List (JsString × JsString) :=
  headerPieces siteUrl now (units "\n" ++ gap) ++ entryPieces entries

/-- The proposals of a feed, in its order. -/
def fed : Except JsString (List UiProposal) → List UiProposal
  | .ok proposals => sortByStart proposals
  | .error _ => []

/-- The gaps between the header of a feed and its entries. -/
def feedGaps : List JsString := [units "  ", units "\n  ", units "    "]

/-- A feed is written as the document of its entries. -/
theorem feed_eq (siteUrl : JsString) (now : ℤ) (proposals : Except JsString (List UiProposal)) :
    ∃ gap ∈ feedGaps, (feed siteUrl now proposals).body =
      xmlScheme.renderPieces (feedPieces siteUrl now gap ((fed proposals).map (feedEntry siteUrl))) := by
  cases proposals with
  | error message =>
    refine ⟨units "  ", by decide, ?_⟩
    rw [feed, feedFooter_eq]
    exact feedHeader_eq siteUrl now _ _
  | ok proposals =>
    simp only [feed, fed]
    cases sortByStart proposals with
    | nil =>
      have hlast : units "\n" ++ feedFooter =
          xmlScheme.escape (units "\n  ") ++ xmlScheme.renderPieces footerPieces := by
        decide +kernel
      refine ⟨units "\n  ", by decide, ?_⟩
      rw [List.map_nil, join, List.nil_append, hlast]
      exact feedHeader_eq siteUrl now _ _
    | cons proposal proposals =>
      have hindent : units "    " = xmlScheme.escape (units "    ") := by decide +kernel
      refine ⟨units "    ", by decide, ?_⟩
      rw [joined_eq]
      conv_lhs => rw [hindent]
      exact feedHeader_eq siteUrl now _ _

/-! ## Reading the feed back -/

/-- Tags before an item are passed over. -/
theorem splitItems_skip {before : List (JsString × JsString)} (rest : List (JsString × JsString))
    (h : ∀ tag ∈ before.map Prod.fst, tag ≠ units "item") :
    splitItems none (before ++ rest) = splitItems none rest := by
  induction before with
  | nil => rfl
  | cons piece before ih =>
    rw [List.cons_append, splitItems, if_neg (h piece.1 List.mem_cons_self),
      ih fun tag htag => h tag (List.mem_cons_of_mem _ htag)]

/-- An item reaches up to its end tag. -/
theorem splitItems_item {begun elements : List (JsString × JsString)} (gap : JsString)
    (rest : List (JsString × JsString))
    (h : ∀ tag ∈ elements.map Prod.fst, tag ≠ units "/item") :
    splitItems (some begun) (elements ++ (units "/item", gap) :: rest) =
      (begun ++ elements) :: splitItems none rest := by
  induction elements generalizing begun with
  | nil =>
    rw [List.nil_append, splitItems, if_pos rfl, List.append_nil]
  | cons piece elements ih =>
    rw [List.cons_append, splitItems, if_neg (h piece.1 List.mem_cons_self),
      ih fun tag htag => h tag (List.mem_cons_of_mem _ htag), List.append_assoc]
    rfl

/-- The names of the elements do not depend on the proposal. -/
theorem map_fst_itemElements (entry : FeedEntry) :
    (itemElements entry).map Prod.fst =
      [units "title", units "/title", units "link", units "/link", units "description",
        units "/description", units "pubDate", units "/pubDate",
        units "guid isPermaLink=\"true\"", units "/guid"] := rfl

/-- The items of the document are the entries. -/
theorem splitItems_entryPieces (entries : List FeedEntry) :
    splitItems none (entryPieces entries) = entries.map itemElements := by
  induction entries with
  | nil =>
    change splitItems none footerPieces = []
    decide +kernel
  | cons entry entries ih =>
    rw [entryPieces, splitItems, if_pos rfl, splitItems_item, ih]
    · rfl
    · rw [map_fst_itemElements]
      decide +kernel

/-- Every item is read as its entry. -/
theorem mapM_toEntry (entries : List FeedEntry) :
    (entries.map itemElements).mapM toEntry = some entries := by
  induction entries with
  | nil => rfl
  | cons entry entries ih =>
    rw [List.map_cons, List.mapM_cons, ih]
    rfl

/-- The tags of the header do not depend on what it says. -/
theorem map_fst_headerPieces (siteUrl : JsString) (now : ℤ) (gap : JsString) :
    (headerPieces siteUrl now gap).map Prod.fst =
      [units "?xml version=\"1.0\" encoding=\"UTF-8\"?", units "rss version=\"2.0\"",
        units "channel", units "title", units "/title", units "link", units "/link",
        units "description", units "/description", units "language", units "/language",
        units "lastBuildDate", units "/lastBuildDate"] := rfl

/-- The tag is one that a reader of XML takes as it is. -/
def PlainTag (tag : JsString) : Prop :=
  Legible tag ∧ received tag = tag ∧ isTag tag = true ∧ 62 ∉ tag

instance (tag : JsString) : Decidable (PlainTag tag) :=
  inferInstanceAs (Decidable (_ ∧ _ ∧ _ ∧ _))

/-- The tags of the entries are plain, and their elements are nested. -/
theorem entryPieces_tags (entries : List FeedEntry) :
    (∀ tag ∈ (entryPieces entries).map Prod.fst, PlainTag tag) ∧
      nested [units "channel", units "rss"] ((entryPieces entries).map Prod.fst) = true := by
  induction entries with
  | nil =>
    change (∀ tag ∈ footerPieces.map Prod.fst, PlainTag tag) ∧
      nested [units "channel", units "rss"] (footerPieces.map Prod.fst) = true
    decide +kernel
  | cons entry entries ih =>
    have hitem : ∀ tag ∈ units "item" :: ((itemElements entry).map Prod.fst ++ [units "/item"]),
        PlainTag tag := by
      rw [map_fst_itemElements]
      decide +kernel
    have htags : (entryPieces (entry :: entries)).map Prod.fst =
        (units "item" :: ((itemElements entry).map Prod.fst ++ [units "/item"])) ++
          (entryPieces entries).map Prod.fst := by
      simp [entryPieces]
    rw [htags]
    refine ⟨List.forall_mem_append.mpr ⟨hitem, ih.1⟩, ?_⟩
    rw [map_fst_itemElements]
    exact ih.2

/-- The tags of a feed are plain, and its elements are nested. -/
theorem feedPieces_tags (siteUrl : JsString) (now : ℤ) (gap : JsString) (entries : List FeedEntry) :
    (∀ tag ∈ (feedPieces siteUrl now gap entries).map Prod.fst, PlainTag tag) ∧
      nested [] ((feedPieces siteUrl now gap entries).map Prod.fst) = true := by
  obtain ⟨hplain, hnested⟩ := entryPieces_tags entries
  have hheader : ∀ tag ∈ (headerPieces siteUrl now (units "\n" ++ gap)).map Prod.fst,
      PlainTag tag := by
    rw [map_fst_headerPieces]
    decide +kernel
  rw [feedPieces, List.map_append]
  refine ⟨List.forall_mem_append.mpr ⟨hheader, hplain⟩, ?_⟩
  rw [map_fst_headerPieces]
  exact hnested

/-- The entry as it arrives at a reader. -/
def FeedEntry.received (entry : FeedEntry) : FeedEntry :=
  ⟨Foundation.received entry.title, Foundation.received entry.link,
    Foundation.received entry.description, Foundation.received entry.pubDate,
    Foundation.received entry.guid⟩

/-- XML admits the texts of the entry. -/
structure FeedEntry.Readable (entry : FeedEntry) : Prop where
  title : Legible entry.title
  link : Legible entry.link
  description : Legible entry.description
  pubDate : Legible entry.pubDate
  guid : Legible entry.guid

/-- The elements of an entry arrive with the texts of the entry. -/
theorem received_itemElements (entry : FeedEntry) :
    (itemElements entry).map (Prod.map id received) = itemElements entry.received := by
  have hgap : received (units "\n      ") = units "\n      " := by decide +kernel
  have hlast : received (units "\n    ") = units "\n    " := by decide +kernel
  simp only [itemElements, List.map_cons, List.map_nil, Prod.map_apply, id_eq, hgap, hlast]
  rfl

/-- The elements of an entry can be read exactly if the texts of the entry can. -/
theorem legible_itemElements (entry : FeedEntry) :
    (∀ piece ∈ itemElements entry, Legible piece.2) ↔ entry.Readable := by
  have hgap : Legible (units "\n      ") := by decide +kernel
  have hlast : Legible (units "\n    ") := by decide +kernel
  simp only [itemElements, List.forall_mem_cons, hgap, hlast, List.not_mem_nil, false_implies,
    implies_true, true_and, and_true]
  exact ⟨fun h => ⟨h.1, h.2.1, h.2.2.1, h.2.2.2.1, h.2.2.2.2⟩,
    fun h => ⟨h.title, h.link, h.description, h.pubDate, h.guid⟩⟩

/-- The entries arrive one after the other: the induction is on the entries. -/
theorem received_entryPieces (entries : List FeedEntry) :
    (entryPieces entries).map (Prod.map id received) =
      entryPieces (entries.map FeedEntry.received) := by
  induction entries with
  | nil =>
    change footerPieces.map (Prod.map id received) = footerPieces
    decide +kernel
  | cons entry entries ih =>
    have hitem : received (units "\n      ") = units "\n      " := by decide +kernel
    have hgap : received (if entries = [] then units "\n  " else units "\n    ") =
        if entries.map FeedEntry.received = [] then units "\n  " else units "\n    " := by
      simp only [List.map_eq_nil_iff]
      split <;> decide +kernel
    simp only [entryPieces, List.map_cons, List.map_append, Prod.map_apply, id_eq, hitem, hgap,
      received_itemElements, ih]

/-- The entries can be read exactly if all their texts can. -/
theorem legible_entryPieces (entries : List FeedEntry) :
    (∀ piece ∈ entryPieces entries, Legible piece.2) ↔ ∀ entry ∈ entries, entry.Readable := by
  induction entries with
  | nil =>
    have hfooter : ∀ piece ∈ footerPieces, Legible piece.2 := by decide +kernel
    exact iff_of_true hfooter fun _ h => by contradiction
  | cons entry entries ih =>
    have hitem : Legible (units "\n      ") := by decide +kernel
    have hgap : Legible (if entries = [] then units "\n  " else units "\n    ") := by
      split <;> decide +kernel
    simp only [entryPieces, List.forall_mem_cons, List.forall_mem_append, legible_itemElements,
      hitem, hgap, ih, true_and]

/-- Plain units are ordinary. -/
theorem ordinary_of_plain {c : UInt16} (h : isPlainUnit c = true) : isOrdinaryUnit c = true := by
  simp only [isPlainUnit, isWordUnit, isDigitUnit, Bool.or_eq_true, Bool.and_eq_true,
    decide_eq_true_eq, beq_iff_eq, UInt16.le_iff_toNat_le, ← UInt16.toNat_inj] at h
  simp only [isOrdinaryUnit, Bool.and_eq_true, decide_eq_true_eq, UInt16.le_iff_toNat_le]
  simp at h ⊢
  omega

/-- The header can be read, and arrives as it is. -/
theorem received_headerPieces {siteUrl : JsString} (now : ℤ) {gap : JsString} (hgap : gap ∈ feedGaps)
    (hsite : ∀ c ∈ siteUrl, isOrdinaryUnit c = true) :
    (∀ piece ∈ headerPieces siteUrl now (units "\n" ++ gap), Legible piece.2) ∧
      (headerPieces siteUrl now (units "\n" ++ gap)).map (Prod.map id received) =
        headerPieces siteUrl now (units "\n" ++ gap) := by
  have hdate : ∀ c ∈ toUTCString now, isOrdinaryUnit c = true := fun _ hc =>
    ordinary_of_plain (plain_toUTCString hc)
  have hgaps : ∀ gap ∈ feedGaps, Legible (units "\n" ++ gap) ∧
      received (units "\n" ++ gap) = units "\n" ++ gap := by decide +kernel
  have hfixed : ∀ text ∈ [units "\n", units "\n  ", units "\n    ",
      units "Quorum Governance Proposals",
      units "On-chain governance proposals for the Stellar and Soroban ecosystem", units "en"],
      Legible text ∧ received text = text := by decide +kernel
  simp only [List.forall_mem_cons, List.not_mem_nil, false_implies, implies_true, and_true]
    at hfixed
  simp only [headerPieces, List.forall_mem_cons, List.map_cons, List.map_nil, Prod.map_apply, id_eq,
    hfixed, hgaps gap hgap, legible_ordinary hsite, received_ordinary hsite,
    legible_ordinary hdate, received_ordinary hdate, List.not_mem_nil, false_implies, implies_true,
    and_self]

/-- What a reader finds in a document of entries: nothing if XML does not admit one of their texts,
and else the entries as they arrive. -/
theorem readFeed_renderPieces {siteUrl : JsString} (now : ℤ) {gap : JsString} (hgap : gap ∈ feedGaps)
    (hsite : ∀ c ∈ siteUrl, isOrdinaryUnit c = true) (entries : List FeedEntry) :
    ((∀ entry ∈ entries, entry.Readable) →
      readFeed (xmlScheme.renderPieces (feedPieces siteUrl now gap entries)) =
        some (entries.map FeedEntry.received)) ∧
    ((∃ entry ∈ entries, ¬ entry.Readable) →
      readFeed (xmlScheme.renderPieces (feedPieces siteUrl now gap entries)) = none) := by
  obtain ⟨hplain, hnested⟩ := feedPieces_tags siteUrl now gap entries
  obtain ⟨hheader, harrives⟩ := received_headerPieces now hgap hsite
  have hread := xmlScheme.readXml_renderPieces hplain hnested
  have hlegible : (∀ piece ∈ feedPieces siteUrl now gap entries, Legible piece.2) ↔
      ∀ entry ∈ entries, entry.Readable := by
    rw [feedPieces, List.forall_mem_append, legible_entryPieces]
    exact and_iff_right hheader
  have hitem : ∀ tag ∈ (headerPieces siteUrl now (units "\n" ++ gap)).map Prod.fst,
      tag ≠ units "item" := by
    rw [map_fst_headerPieces]
    decide +kernel
  constructor
  · intro hall
    rw [if_pos (hlegible.mpr hall), feedPieces, List.map_append, harrives,
      received_entryPieces] at hread
    rw [readFeed, feedPieces, hread, Option.bind_some, splitItems_skip _ hitem,
      splitItems_entryPieces, mapM_toEntry]
  · rintro ⟨entry, hentry, hunreadable⟩
    rw [if_neg fun h => hunreadable (hlegible.mp h entry hentry)] at hread
    rw [readFeed, hread, Option.bind_none]

/-- Links are of ordinary units if the URL of the site is. -/
theorem ordinary_feedLink {siteUrl : JsString} {proposal : UiProposal}
    (hsite : ∀ c ∈ siteUrl, isOrdinaryUnit c = true)
    (hid : ∀ c ∈ proposal.id, isOrdinaryUnit c = true) :
    ∀ c ∈ feedLink siteUrl proposal, isOrdinaryUnit c = true := by
  have hpath : (units "/proposals/").all isOrdinaryUnit = true := by decide
  rw [feedLink, List.forall_mem_append, List.forall_mem_append]
  exact ⟨hsite, List.all_eq_true.mp hpath, hid⟩

/-- Dates are of ordinary units. -/
theorem ordinary_pubDate (iso : JsString) : ∀ c ∈ pubDate iso, isOrdinaryUnit c = true := by
  have hinvalid : (units "Invalid Date").all isOrdinaryUnit = true := by decide
  unfold pubDate
  split
  · exact fun c hc => ordinary_of_plain (plain_toUTCString hc)
  · exact List.all_eq_true.mp hinvalid

/-- Of the texts of an entry only title and description may be such that XML does not admit
them. -/
theorem readable_feedEntry {siteUrl : JsString} {proposal : UiProposal}
    (hsite : ∀ c ∈ siteUrl, isOrdinaryUnit c = true)
    (hid : ∀ c ∈ proposal.id, isOrdinaryUnit c = true) :
    (feedEntry siteUrl proposal).Readable ↔ Legible proposal.title ∧ Legible proposal.description := by
  have hlink := legible_ordinary (ordinary_feedLink hsite hid)
  exact ⟨fun h => ⟨h.title, h.description⟩,
    fun h => ⟨h.1, hlink, h.2, legible_ordinary (ordinary_pubDate _), hlink⟩⟩

/-- What a reader finds in a feed: the entries of its proposals, and none at all if XML does not
admit one of the titles and descriptions. -/
theorem readFeed_feed {siteUrl : JsString} (now : ℤ) (proposals : Except JsString (List UiProposal))
    (hsite : ∀ c ∈ siteUrl, isOrdinaryUnit c = true)
    (hids : ∀ proposal ∈ fed proposals, ∀ c ∈ proposal.id, isOrdinaryUnit c = true) :
    ((∀ proposal ∈ fed proposals, Legible proposal.title ∧ Legible proposal.description) →
      readFeed (feed siteUrl now proposals).body =
        some ((fed proposals).map fun proposal => (feedEntry siteUrl proposal).received)) ∧
    ((∃ proposal ∈ fed proposals, ¬ (Legible proposal.title ∧ Legible proposal.description)) →
      readFeed (feed siteUrl now proposals).body = none) := by
  obtain ⟨gap, hgap, hbody⟩ := feed_eq siteUrl now proposals
  obtain ⟨hread, hunread⟩ :=
    readFeed_renderPieces now hgap hsite ((fed proposals).map (feedEntry siteUrl))
  rw [hbody]
  constructor
  · intro hall
    rw [hread (List.forall_mem_map.mpr fun proposal hproposal =>
      (readable_feedEntry hsite (hids proposal hproposal)).mpr (hall proposal hproposal)),
      List.map_map]
    rfl
  · rintro ⟨proposal, hproposal, hillegible⟩
    exact hunread ⟨_, List.mem_map_of_mem hproposal,
      fun h => hillegible ((readable_feedEntry hsite (hids proposal hproposal)).mp h)⟩

/-! ## The order of the entries -/

/-- Proposals start in the order of their ids. -/
def StartOrder (s : System) : Prop :=
  ∀ id id' p p', id ≤ id' → s.governor.proposal id = some p →
    s.governor.proposal id' = some p' → p.startLedger ≤ p'.startLedger

/-- An accepted call keeps the order in which proposals start. -/
theorem StartOrder.effect {env : Env} {c : Call} {s s' : System} (h : StartOrder s)
    (hw : WellFormed env.sequence s) (he : Effect env c s s') : StartOrder s' := by
  intro id id' p p' hle hp hp'
  rcases he.change.revises with hquiet | ⟨config, _, _, q, hopens⟩ | ⟨other, q, q', hrevises⟩
  · rw [hquiet.proposal] at hp hp'
    exact h id id' p p' hle hp hp'
  · have hnew : q.id = s.governor.proposalCount.getD 0 + 1 := hopens.id
    have hold : ∀ n r, n ≠ q.id → s'.governor.proposal n = some r →
        s.governor.proposal n = some r ∧ n < q.id := by
      intro n r hn hr
      rw [hopens.proposal, Function.update_of_ne hn] at hr
      refine ⟨hr, ?_⟩
      by_contra hge
      rw [hw.unopened n (by omega)] at hr
      contradiction
    have hself : s'.governor.proposal q.id = some q := by
      rw [hopens.proposal, Function.update_self]
    by_cases hid' : id' = q.id
    · rw [hid', hself] at hp'
      obtain rfl := Option.some.inj hp'
      by_cases hid : id = q.id
      · rw [hid, hself] at hp
        rw [Option.some.inj hp]
      · have hstored := hw.proposals id p (hold id p hid hp).1
        rw [hstored.startLedger, hopens.startLedger]
        exact Nat.succ_le_succ hstored.opened
    · obtain ⟨hstored', hlt⟩ := hold id' p' hid' hp'
      exact h id id' p p' hle (hold id p (by omega) hp).1 hstored'
  · have hkept : ∀ n r, s'.governor.proposal n = some r →
        ∃ r₀, s.governor.proposal n = some r₀ ∧ r.startLedger = r₀.startLedger := by
      intro n r hr
      by_cases hn : n = other
      · rw [hrevises.proposal, hn, Function.update_self] at hr
        exact ⟨q, hn ▸ hrevises.stored, Option.some.inj hr ▸ hrevises.kept.startLedger⟩
      · rw [hrevises.proposal, Function.update_of_ne hn] at hr
        exact ⟨r, hr, rfl⟩
    obtain ⟨p₀, hp₀, hstart⟩ := hkept id p hp
    obtain ⟨p₀', hp₀', hstart'⟩ := hkept id' p' hp'
    rw [hstart, hstart']
    exact h id id' p₀ p₀' hle hp₀ hp₀'

/-- In every reachable state proposals start in the order of their ids. -/
theorem StartOrder.run {start now : ℕ} {calls : List Invocation}
    (hcalls : machine.Scheduled start now calls) : StartOrder (machine.run System.empty calls) := by
  have h := machine.run_invariant (fun now s => WellFormed now s ∧ StartOrder s)
    (fun _ _ _ h hle => ⟨h.1.mono hle, h.2⟩)
    (fun i s h => by
      have hstep := machine_step h.1.blank i
      refine ⟨h.1.step hstep, ?_⟩
      generalize machine.step i s = s' at hstep
      cases hstep with
      | token _ => exact h.2
      | governor hret he => exact h.2.effect h.1 he
      | refused => exact h.2)
    ⟨WellFormed.empty start, fun _ _ _ _ _ hp _ => by contradiction⟩ hcalls
  exact h.2

variable {now : ℕ} {calls : List Invocation}

/-- What is stored at a height is stored at every later one, with its terms. -/
theorem kept_chainAt {height later id : ℕ} {p : Governor.Proposal}
    (hcalls : machine.Scheduled 0 now calls) (hle : height ≤ later)
    (hp : (chainAt calls height).governor.proposal id = some p) :
    ∃ p', (chainAt calls later).governor.proposal id = some p' ∧ Kept p p' := by
  obtain ⟨mid, last, more, hfirst, hrest, hchain⟩ := Sdk.Client.chainAt_later hcalls hle
  rw [hchain]
  exact kept_run (wellFormed_run hfirst) hrest hp

/-- Proposals start in the order of their ids, at whatever heights they are read. -/
theorem startLedger_le {height height' id id' : ℕ} {p p' : Governor.Proposal}
    (hcalls : machine.Scheduled 0 now calls) (hle : id ≤ id')
    (hp : (chainAt calls height).governor.proposal id = some p)
    (hp' : (chainAt calls height').governor.proposal id' = some p') :
    p.startLedger ≤ p'.startLedger := by
  obtain ⟨mid, last, more, hfirst, -, -⟩ :=
    Sdk.Client.chainAt_later hcalls (le_refl (max height height'))
  obtain ⟨q, hq, hkept⟩ := kept_chainAt hcalls (le_max_left height height') hp
  obtain ⟨q', hq', hkept'⟩ := kept_chainAt hcalls (le_max_right height height') hp'
  rw [← hkept.startLedger, ← hkept'.startLedger]
  exact StartOrder.run hfirst id id' q q' hle hq hq'

/-- An entry of a related listing belongs to one of the ids. -/
theorem exists_of_forall₂ {ι α : Type} {R : ι → α → Prop} {ids : List ι} {entries : List α}
    (h : List.Forall₂ R ids entries) {entry : α} (hentry : entry ∈ entries) :
    ∃ id ∈ ids, R id entry := by
  induction h with
  | nil => contradiction
  | cons hfirst _ ih =>
    rcases List.mem_cons.mp hentry with rfl | hrest
    · exact ⟨_, List.mem_cons_self, hfirst⟩
    · obtain ⟨id, hid, hR⟩ := ih hrest
      exact ⟨id, List.mem_cons_of_mem _ hid, hR⟩

/-- Entries are ordered as the ids that they belong to. -/
theorem pairwise_of_forall₂ {ι α : Type} {R : ι → α → Prop} {T : ι → ι → Prop}
    {S : α → α → Prop} {ids : List ι} {entries : List α} (h : List.Forall₂ R ids entries)
    (hids : ids.Pairwise T) (horder : ∀ i j a b, T i j → R i a → R j b → S a b) :
    entries.Pairwise S := by
  induction h with
  | nil => exact .nil
  | cons hfirst hrest ih =>
    obtain ⟨hhead, htail⟩ := List.pairwise_cons.mp hids
    refine .cons (fun entry hentry => ?_) (ih htail)
    obtain ⟨id, hid, hR⟩ := exists_of_forall₂ hrest hentry
    exact horder _ id _ entry (hhead id hid) hfirst hR

/-- A listing is sorted already, if the clock has not been set back while it was made. -/
theorem sortByStart_listed {net : Network} {seen : ℕ → ℕ} {latestLedger count : ℕ} {clock : ℕ → ℤ}
    {listing : List UiProposal} (hcalls : machine.Scheduled 0 now calls) (hclock : Monotone clock)
    (h : List.Forall₂ (Listed net (fun id => (chainAt calls (seen id)).governor) latestLedger clock)
      (List.range' 1 count).reverse listing) : sortByStart listing = listing := by
  have hids : (List.range' 1 count).reverse.Pairwise fun id id' => id' < id :=
    List.pairwise_reverse.mpr List.pairwise_lt_range'
  refine List.mergeSort_of_pairwise (pairwise_of_forall₂ h hids ?_)
  intro id id' a b hlt hlists hlists'
  obtain ⟨p, hp, hshows⟩ := hlists
  obtain ⟨p', hp', hshows'⟩ := hlists'
  have hstart : p'.startLedger ≤ p.startLedger := startLedger_le hcalls hlt.le hp' hp
  have htime : clock (id' - 1) ≤ clock (id - 1) := hclock (Nat.sub_le_sub_right hlt.le 1)
  have hlater : laterStart a b = estimatedTime latestLedger (clock (id' - 1)) p'.startLedger -
      estimatedTime latestLedger (clock (id - 1)) p.startLedger := by
    rw [laterStart, hshows.startTime, hshows'.startTime]
  refine decide_eq_true ?_
  rw [hlater, estimatedTime, estimatedTime, secondsPerLedger]
  omega

/-! ## The feed shows the proposals -/

/-- The entry shows the proposal, with the time at which its voting opens. Title and description
are as they arrive at a reader. -/
structure EntryShows (net : Network) (siteUrl : JsString) (opening : ℤ) (p : Governor.Proposal)
    (entry : FeedEntry) : Prop where
  title : entry.title = received (net.text p.title)
  description : entry.description = received (net.text p.description)
  link : entry.link = siteUrl ++ (units "/proposals/" ++ proposalId p.id)
  guid : entry.guid = entry.link
  pubDate : parseUTC entry.pubDate = some (opening - opening % 1000)

/-- What is read from an ISO text is a date. -/
theorem abs_le_of_parseISO {text : JsString} {t : ℤ} (h : parseISO text = some t) :
    |t| ≤ maxTime := by
  obtain ⟨read, -, hread⟩ := Option.bind_eq_some_iff.mp h
  split at hread
  · simp only [Option.ite_none_right_eq_some, Option.some.injEq] at hread
    rw [← hread.2]
    exact hread.1.2
  · contradiction

/-- Ids are of ordinary units. -/
theorem ordinary_proposalId (n : ℕ) : ∀ c ∈ proposalId n, isOrdinaryUnit c = true := by
  have hprefix : (units "QIP-").all isOrdinaryUnit = true := by decide
  rw [proposalId, List.forall_mem_append]
  exact ⟨List.all_eq_true.mp hprefix,
    fun c hc => ordinary_of_plain (isPlainUnit_of_digit (isDigitUnit_paddedUnits hc))⟩

/-- The entry of a listed proposal, as it arrives, shows the proposal. -/
theorem entryShows_feedEntry {net : Network} {siteUrl : JsString} {latestLedger : ℕ} {time : ℤ}
    {p : Governor.Proposal} {shown : UiProposal}
    (hsite : ∀ c ∈ siteUrl, isOrdinaryUnit c = true)
    (h : Displays net.toLibrary latestLedger time p shown) :
    EntryShows net siteUrl (estimatedTime latestLedger time p.startLedger) p
      (feedEntry siteUrl shown).received := by
  have hlink : (feedEntry siteUrl shown).received.link =
      siteUrl ++ (units "/proposals/" ++ proposalId p.id) := by
    rw [← h.id]
    exact received_ordinary (ordinary_feedLink hsite (h.id ▸ ordinary_proposalId p.id))
  have hdate : (feedEntry siteUrl shown).received.pubDate =
      toUTCString (estimatedTime latestLedger time p.startLedger) := by
    have hwritten : pubDate shown.startTime =
        toUTCString (estimatedTime latestLedger time p.startLedger) := by
      rw [pubDate, h.startTime]
    rw [← hwritten]
    exact received_ordinary (ordinary_pubDate _)
  refine ⟨congrArg received h.title, congrArg received h.description, hlink, rfl, ?_⟩
  rw [hdate]
  exact parseUTC_toUTCString (abs_le_of_parseISO h.startTime)

/-- The feed, made while the chain goes on and read by anybody who reads XML. If the statuses that
are met are known, it has one entry for every proposal that there is when the count is read, newest
first, with title, description and opening time as they are stored, provided that XML admits all
titles and descriptions; with a single one that it does not admit the feed cannot be read at all.
If a status is not known the feed is empty, and kept for a minute only. The end of a link leads to
its proposal at every later height at which the status is known. -/
theorem feed_shows_proposals (net : Network) (outOfRange : JsString) {siteUrl : JsString} (built : ℤ)
    (hcalls : machine.Scheduled 0 now calls) {sight : Sight} {latestLedger : ℕ} {clock : ℕ → ℤ}
    (hsite : ∀ c ∈ siteUrl, isOrdinaryUnit c = true)
    (hseen : ∀ id, sight.counted ≤ sight.seen id)
    (hcount : countAt calls sight.counted ≤ Sdk.maxArrayLength) (hclock : Monotone clock)
    (hdated : ∀ id, 1 ≤ id → id ≤ countAt calls sight.counted → ∀ p,
      (chainAt calls (sight.seen id)).governor.proposal id = some p →
        Dated latestLedger (clock (id - 1)) p) :
    let count := countAt calls sight.counted
    let stored := fun height id => (chainAt calls height).governor.proposal id
    let admitted := fun p : Governor.Proposal =>
      Legible (net.text p.title) ∧ Legible (net.text p.description)
    let response := feed siteUrl built (getProposals net (chainAt calls sight.counted).governor
      (fun id => (chainAt calls (sight.seen id)).governor) (.ok latestLedger) clock)
    ((∀ id p, 1 ≤ id → id ≤ count → stored (sight.seen id) id = some p → Known p.status) →
      ((∀ id p, 1 ≤ id → id ≤ count → stored (sight.seen id) id = some p → admitted p) →
        ∃ entries, readFeed response.body = some entries ∧
          List.Forall₂ (fun id entry => ∃ p, stored (sight.seen id) id = some p ∧
            EntryShows net siteUrl (estimatedTime latestLedger (clock (id - 1)) p.startLedger) p
              entry) (List.range' 1 count).reverse entries) ∧
      ((∃ id p, 1 ≤ id ∧ id ≤ count ∧ stored (sight.seen id) id = some p ∧ ¬ admitted p) →
        readFeed response.body = none)) ∧
    ((∃ id p, 1 ≤ id ∧ id ≤ count ∧ stored (sight.seen id) id = some p ∧ ¬ Known p.status) →
      readFeed response.body = some [] ∧ response.maxAge = 60) ∧
    ∀ id p later, 1 ≤ id → id ≤ count → stored (sight.seen id) id = some p →
      sight.seen id ≤ later → ∃ p', stored later id = some p' ∧ (Known p'.status →
        ∀ latest time, Dated latest time p' → ∃ shown,
          getProposalById net outOfRange (chainAt calls later).governor (.ok latest) time
            (proposalId id) = .ok (some shown) ∧
          shown.id = proposalId p.id ∧ shown.title = net.text p.title ∧
          shown.description = net.text p.description ∧
          shown.proposer = net.strkey p.proposer) := by
  intro count stored admitted response
  have hstored : ∀ id, 1 ≤ id → id ≤ count → ∃ p, stored (sight.seen id) id = some p :=
    fun id hone hle => Sdk.stored_chainAt hcalls (hseen id) ⟨hone, hle⟩
  refine ⟨fun hknown => ?_, fun hmet => ?_, fun id p later hone hle hp hlater => ?_⟩
  · have hmet : ∀ id, 1 ≤ id → id ≤ count →
        ∃ p, stored (sight.seen id) id = some p ∧ Known p.status := by
      intro id hone hle
      obtain ⟨p, hp⟩ := hstored id hone hle
      exact ⟨p, hp, hknown id p hone hle hp⟩
    obtain ⟨listing, hlisting, hlisted⟩ := getProposals_listed net hcount hmet hdated
    have hfed : fed (getProposals net (chainAt calls sight.counted).governor
        (fun id => (chainAt calls (sight.seen id)).governor) (.ok latestLedger) clock) = listing := by
      rw [hlisting, fed, sortByStart_listed hcalls hclock hlisted]
    have hlists : ∀ shown ∈ listing, ∃ id, (1 ≤ id ∧ id ≤ count) ∧ ∃ p,
        stored (sight.seen id) id = some p ∧
        Displays net.toLibrary latestLedger (clock (id - 1)) p shown := by
      intro shown hshown
      obtain ⟨id, hid, p, hp, hdisplays⟩ := exists_of_forall₂ hlisted hshown
      have hrange : 1 ≤ id ∧ id < 1 + count := List.mem_range'_1.mp (List.mem_reverse.mp hid)
      exact ⟨id, ⟨hrange.1, by omega⟩, p, hp, hdisplays⟩
    have hids : ∀ shown ∈ listing, ∀ c ∈ shown.id, isOrdinaryUnit c = true := by
      intro shown hshown
      obtain ⟨_, _, p, _, hdisplays⟩ := hlists shown hshown
      exact hdisplays.id ▸ ordinary_proposalId p.id
    obtain ⟨hread, hunread⟩ := readFeed_feed built _ hsite (hfed ▸ hids)
    rw [hfed] at hread hunread
    refine ⟨fun hadmitted => ⟨_, hread fun shown hshown => ?_, ?_⟩, ?_⟩
    · obtain ⟨id, hid, p, hp, hdisplays⟩ := hlists shown hshown
      rw [hdisplays.title, hdisplays.description]
      exact hadmitted id p hid.1 hid.2 hp
    · refine List.forall₂_map_right_iff.mpr (hlisted.imp fun id shown hlisted => ?_)
      obtain ⟨p, hp, hdisplays⟩ := hlisted
      exact ⟨p, hp, entryShows_feedEntry hsite hdisplays⟩
    · rintro ⟨id, p, hone, hle, hp, hillegible⟩
      have hid : id ∈ (List.range' 1 count).reverse :=
        List.mem_reverse.mpr (List.mem_range'_1.mpr ⟨hone, by omega⟩)
      obtain ⟨shown, hshown, p', hp', hdisplays⟩ := exists_of_forall₂ hlisted.flip hid
      obtain rfl := Option.some.inj (hp.symm.trans hp')
      refine hunread ⟨shown, hshown, ?_⟩
      rw [hdisplays.title, hdisplays.description]
      exact hillegible
  · obtain ⟨id, p, hone, hle, hp, hunknown⟩ := hmet
    cases hresult : getProposals net (chainAt calls sight.counted).governor
        (fun id => (chainAt calls (sight.seen id)).governor) (.ok latestLedger) clock with
    | ok listing => exact absurd (known_of_getProposals hcount hresult ⟨hone, hle⟩ hp) hunknown
    | error message =>
      have hempty := (readFeed_feed built (.error message) hsite fun _ h => by contradiction).1
        fun _ h => by contradiction
      simp only [response, hresult]
      exact ⟨hempty, rfl⟩
  · obtain ⟨p', hp', hkept⟩ := kept_chainAt hcalls hlater hp
    refine ⟨p', hp', fun hknown latest time hdates => ?_⟩
    have hfits : id < 2 ^ 64 := by
      have hroom : Sdk.maxArrayLength < 2 ^ 64 := by decide
      exact (hle.trans hcount).trans_lt hroom
    obtain ⟨shown, hfound, hdisplays⟩ := getProposalById_displays hfits hp' hknown hdates
    exact ⟨shown, hfound, hkept.id ▸ hdisplays.id, hkept.title ▸ hdisplays.title,
      hkept.description ▸ hdisplays.description, hkept.proposer ▸ hdisplays.proposer⟩

/-- The dates of the run can be shown. -/
theorem dated_of_le {p : Governor.Proposal} (hstart : p.startLedger ≤ 20) (hend : p.endLedger ≤ 20) :
    Dated 14 1778580000000 p := by
  rw [Dated, abs_le, abs_le]
  unfold estimatedTime secondsPerLedger maxTime
  omega

/-- A look at the end of the run. -/
def lastSight : Sight := ⟨20, fun _ => 20⟩

/-- The feed of the one proposal that has been executed. -/
theorem feed_shows_proposals_executed :
    ∃ entry, readFeed (feed (units "https://quorum.stellar.org") 0 (getProposals Sdk.plainNetwork
        (chainAt passingCalls lastSight.counted).governor
        (fun id => (chainAt passingCalls (lastSight.seen id)).governor) (.ok 14)
        fun _ => 1778580000000)).body = some [entry] ∧
      entry.link = units "https://quorum.stellar.org/proposals/QIP-001" := by
  have hcalls : machine.Scheduled 0 14 passingCalls := by decide
  have hcount : countAt passingCalls lastSight.counted = 1 := by decide
  have hall : ((chainAt passingCalls 20).governor.proposal 1).all (fun p =>
      decide (p.startLedger ≤ 20 ∧ p.endLedger ≤ 20 ∧ p.id = 1 ∧ Known p.status ∧
        Legible (Sdk.plainNetwork.text p.title) ∧
        Legible (Sdk.plainNetwork.text p.description))) = true := by
    decide
  have hfacts : ∀ id, 1 ≤ id → id ≤ countAt passingCalls lastSight.counted → ∀ p,
      (chainAt passingCalls (lastSight.seen id)).governor.proposal id = some p →
        p.startLedger ≤ 20 ∧ p.endLedger ≤ 20 ∧ p.id = 1 ∧ Known p.status ∧
          Legible (Sdk.plainNetwork.text p.title) ∧
          Legible (Sdk.plainNetwork.text p.description) := by
    intro id hone hle p hp
    obtain rfl : id = 1 := by omega
    change (chainAt passingCalls 20).governor.proposal 1 = some p at hp
    rw [hp, Option.all_some, decide_eq_true_eq] at hall
    exact hall
  have hdates : ∀ id, 1 ≤ id → id ≤ countAt passingCalls lastSight.counted → ∀ p,
      (chainAt passingCalls (lastSight.seen id)).governor.proposal id = some p →
        Dated 14 ((fun _ => 1778580000000) (id - 1)) p := by
    intro id hone hle p hp
    obtain ⟨hstart, hend, -, -⟩ := hfacts id hone hle p hp
    exact dated_of_le hstart hend
  have hseen : ∀ id, lastSight.counted ≤ lastSight.seen id := fun _ => le_rfl
  have hclock : Monotone fun _ : ℕ => (1778580000000 : ℤ) := monotone_const
  have hsite : (units "https://quorum.stellar.org").all isOrdinaryUnit = true := by decide
  obtain ⟨hshown, -⟩ := feed_shows_proposals Sdk.plainNetwork [] 0 hcalls
    (List.all_eq_true.mp hsite) hseen (by rw [hcount]; decide) hclock hdates
  obtain ⟨entries, hread, hone⟩ :=
    (hshown fun id p hone hle hp => (hfacts id hone hle p hp).2.2.2.1).1
      fun id p hone hle hp => (hfacts id hone hle p hp).2.2.2.2
  rw [hcount] at hone
  cases hone with
  | cons hfirst hrest =>
    cases hrest
    obtain ⟨p, hp, hentry⟩ := hfirst
    refine ⟨_, hread, ?_⟩
    rw [hentry.link, (hfacts 1 le_rfl (by rw [hcount]) p hp).2.2.1]
    decide +kernel

end Quorum.Frontend
