/-
# The grammars of the answers (`crawler_parser/parser.hpp`)

The answers of a home agent to `getall` and to the request for the videos of a device, as
phrase parsers with one definition for each rule of the grammars.  Characters are bytes, and
only those below 128 are characters of `ascii::char_`.
-/
import Pweb.Foundation.PhraseParser
import Pweb.Crawler.Poller

namespace CrawlerParser

open PhraseParser Poller

/-! ## Spirit -/

/-- `ascii::space`. -/
def space (c : UInt8) : Bool := c = 32 || 9 ≤ c && c ≤ 13

/-- `ascii::char_`. -/
def char (c : UInt8) : Bool := c < 128

def isDigit (c : UInt8) : Bool := 48 ≤ c && c ≤ 57

/-- Whether there is a minus sign, and what follows the sign, which may be missing. -/
def sign : Bytes → Bool × Bytes
  | 45 :: t => (true, t)
  | 43 :: t => (false, t)
  | s => (false, s)

/-- An integer parser: a sign and digits; it fails if the number is not between the bounds of its
type. -/
def integer (lo hi : ℤ) : PhraseParser UInt8 ℤ := lexeme space fun s =>
  let digits := (sign s).2.takeWhile isDigit
  let value : ℤ := if (sign s).1 then -valueOfDigits digits else valueOfDigits digits
  if digits = [] ∨ value < lo ∨ hi < value then none
  else some (value, (sign s).2.dropWhile isDigit)

/-- `int_`. -/
def int : PhraseParser UInt8 ℤ := integer (-2 ^ 31) (2 ^ 31 - 1)

/-- `long_`. -/
def long : PhraseParser UInt8 ℤ := integer (-2 ^ 63) (2 ^ 63 - 1)

/-- `qi::symbols`: the longest of the strings that the input begins with. -/
def symbols {β : Type} (table : List (Bytes × β)) : PhraseParser UInt8 β := lexeme space fun s =>
  let longest := table.foldl (fun best e =>
    if e.1 <+: s ∧ best.all (fun b : Bytes × β => b.1.length < e.1.length) then some e else best)
    none
  longest.map fun e => (e.2, s.drop e.1.length)

/-- A tag, in angle brackets. -/
def openTag (name : Bytes) : Bytes := 60 :: (name ++ [62])

/-- The tag that closes it. -/
def closeTag (name : Bytes) : Bytes := 60 :: (47 :: (name ++ [62]))

/-- `"<name>" >> p >> "</name>"`. -/
def tagged {β : Type} (name : Bytes) (p : PhraseParser UInt8 β) : PhraseParser UInt8 β := do
  lit space (openTag name)
  let a ← p
  lit space (closeTag name)
  return a

/-! ## `getall_parser` -/

/-- `str_`: the characters up to `<`. -/
def str : PhraseParser UInt8 Bytes := lexeme space (many fun c => char c && c ≠ 60)

/-- `str2_`: the characters up to a comma or `<`. -/
def str2 : PhraseParser UInt8 Bytes :=
  lexeme space (many fun c => (char c && c ≠ 44) && c ≠ 60)

/-- `haname_`. -/
def haname : PhraseParser UInt8 Bytes := tagged (text "name") str

/-- `homeagent_`. -/
def homeagent : PhraseParser UInt8 Poller.HomeAgent := tagged (text "home agent") do
  let hostname ← tagged (text "hostname") str
  let description ← tagged (text "description") str
  let port ← tagged (text "port") str
  return { hostname, description, port }

/-- `neighbours_`. -/
def neighbours : PhraseParser UInt8 (List Poller.HomeAgent) :=
  tagged (text "neighbours") (kleene homeagent)

/-- `device_`. -/
def device : PhraseParser UInt8 Device := tagged (text "device") do
  let owner ← tagged (text "owner") str
  let name ← tagged (text "name") str
  let port ← tagged (text "port") str
  let type ← tagged (text "type") str
  let timestamp ← tagged (text "timestamp") long
  let location ← tagged (text "location") str
  let description ← tagged (text "description") str
  return { owner, name, port, type, timestamp, location, description }

/-- `devices_`. -/
def devices : PhraseParser UInt8 (List Device) := tagged (text "devices") (kleene device)

/-- `content_`. -/
def content : PhraseParser UInt8 (List Bytes) :=
  tagged (text "content updates") (list str2 (lit space (text ",")))

/-- `getall_`. -/
def getallParser : PhraseParser UInt8 Getall := tagged (text "getall") do
  let haname ← haname
  let homeagents ← neighbours
  let devices ← devices
  let updates ← content
  return { haname, homeagents, devices, updates }

/-! ## `contmeta_parser` -/

/-- `access_level_`. -/
def accessLevel : PhraseParser UInt8 AccessLevel :=
  symbols [(text "Public", .isPublic), (text "Private", .isPrivate), (text "Not Shared", .notShared)]

/-- `video_`. -/
def video : PhraseParser UInt8 Video := tagged (text "video") do
  let id ← tagged (text "id") int
  let title ← tagged (text "title") str
  let filesize ← tagged (text "filesize") long
  let mimetype ← tagged (text "mimetype") str
  let description ← tagged (text "description") str
  let access ← tagged (text "shared") accessLevel
  return { id, title, filesize, mimetype, description, access }

/-- `videos_`. -/
def videos : PhraseParser UInt8 (List Video) := tagged (text "videos") (kleene video)

/-- `contmeta_`. -/
def contmetaParser : PhraseParser UInt8 (List Video) :=
  tagged (text "html") (tagged (text "multimedia") videos)

/-! ## Answers (`crawler_poller/poller.cpp`) -/

/-- `phrase_parse`, and the test for `iter != end`. -/
def parseAll {β : Type} (p : PhraseParser UInt8 β) (content : Bytes) : Option β :=
  match phraseParse space p content with
  | some (a, []) => some a
  | _ => none

/-- What `handle_poll` makes of an answer. -/
def parseGetall (content : Bytes) : Option Getall := parseAll getallParser content

/-- What `handle_getcontentlist` makes of an answer. -/
def parseContmeta (body : Bytes) : Option (List Video) := parseAll contmetaParser body

example : parseGetall (text "<getall> <name>mg </name><neighbours> </neighbours>\t<devices>" ++
    text "</devices> <content updates>a b, c,</content updates></getall>\n") =
    some ⟨text "mg ", [], [], [text "a b", text "c", []]⟩ := by
  decide +kernel

/-! ## Values -/

theorem yields_tagged {β : Type} {p : PhraseParser UInt8 β} {P : β → Prop} (name : Bytes)
    (hp : Yields p P) : Yields (tagged name p) P :=
  (Yields.trivial _).bind fun _ _ => hp.bind fun _ ha => (Yields.trivial _).bind fun _ _ =>
    .pure ha

/-- What is parsed satisfies what the grammar yields. -/
theorem of_parseAll {β : Type} {p : PhraseParser UInt8 β} {P : β → Prop} (hp : Yields p P)
    {s : Bytes} {a : β} (h : parseAll p s = some a) : P a := by
  rw [parseAll, phraseParse] at h
  rcases hrun : p s with _ | ⟨b, rest⟩
  · rw [hrun] at h
    cases h
  · rw [hrun, Option.map_some] at h
    split at h
    · next heq =>
      cases h
      obtain ⟨rfl, -⟩ := Prod.mk.inj (Option.some.inj heq)
      exact hp.run hrun
    · cases h

end CrawlerParser
