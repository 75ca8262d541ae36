import Stealth.Qpos.TxDetails

/-!
`mapNftsMain` and `mapNftLookupMain`: the key and the nickname of each character. The registry reads no
other fields.
-/

namespace Stealth

def nftOf (nNftID : Nat) (strCharKey strNickname : String) : Nat × QPNft :=
  let bytes (str : String) : Bytes := str.toList.map fun c => UInt8.ofNat c.toNat
  (nNftID, ⟨bytes strCharKey, bytes strNickname⟩)

def nftsMain : List (Nat × QPNft) :=
  [
    nftOf 1 "henrietta" "Henrietta",
    nftOf 2 "agnes" "Agnes",
    nftOf 3 "alistair" "Alistair",
    nftOf 4 "crazy" "Crazy",
    nftOf 5 "gertrude" "Gertrude",
    nftOf 6 "henry" "Henry",
    nftOf 7 "jared" "Jared",
    nftOf 8 "martini" "Martini",
    nftOf 9 "miami" "Miami",
    nftOf 10 "reginald" "Reginald",
    nftOf 11 "thor" "Thor",
    nftOf 12 "kyle" "Kyle",
    nftOf 13 "albrecht" "Albrecht",
    nftOf 14 "markus" "Markus",
    nftOf 15 "vladmir" "Vladmir",
    nftOf 16 "kaleo" "Kaleo",
    nftOf 17 "alexandra" "Alexandra",
    nftOf 18 "oskar" "Oskar",
    nftOf 19 "willis" "Willis",
    nftOf 20 "clementine" "Clementine",
    nftOf 21 "rokky" "Rokky",
    nftOf 22 "carmenita" "Carmenita",
    nftOf 23 "ernest" "Ernest",
    nftOf 24 "kitten" "Kitten",
    nftOf 25 "ansel" "Ansel",
    nftOf 26 "rufus" "Rufus",
    nftOf 27 "brunehilde" "Brunehilde",
    nftOf 28 "louis" "Louis",
    nftOf 29 "james" "James",
    nftOf 30 "edgar" "Edgar",
    nftOf 31 "gronk" "Gronk",
    nftOf 32 "marie" "Marie",
    nftOf 33 "dread" "Dread",
    nftOf 34 "harold" "Harold",
    nftOf 35 "bruce" "Bruce",
    nftOf 36 "clarence" "Clarence",
    nftOf 37 "amelia" "Amelia",
    nftOf 38 "petunia" "Petunia",
    nftOf 39 "judy" "Judy",
    nftOf 40 "helena" "Helena",
    nftOf 41 "athena" "Athena",
    nftOf 42 "jacques" "Jacques",
    nftOf 43 "jammin" "Jammin",
    nftOf 44 "leilani" "Leilani",
    nftOf 45 "merlyn" "Merlyn",
    nftOf 46 "otto" "Otto",
    nftOf 47 "spot" "Spot",
    nftOf 48 "steve" "Steve",
    nftOf 49 "tim" "Tim",
    nftOf 50 "charlie" "Charlie",
    nftOf 51 "claude" "Claude",
    nftOf 52 "daisy" "Daisy",
    nftOf 53 "prudence" "Prudence",
    nftOf 54 "sebastien" "Sebastien",
    nftOf 55 "emily" "Emily",
    nftOf 56 "giancarlo" "Giancarlo",
    nftOf 57 "sid" "Sid",
    nftOf 58 "jeanluc" "Jean Luc",
    nftOf 59 "stewart" "Stewart",
    nftOf 60 "martha" "Martha",
    nftOf 61 "seth" "Seth",
    nftOf 62 "taiho" "Taiho",
    nftOf 63 "ferdinand" "Ferdinand",
    nftOf 64 "jenny" "Jenny",
    nftOf 65 "sam" "Sam",
    nftOf 66 "mike" "Mike",
    nftOf 67 "phoebe" "Phoebe",
    nftOf 68 "buddha" "Buddha",
    nftOf 69 "fonzie" "Fonzie",
    nftOf 70 "beatrice" "Beatrice",
    nftOf 71 "kurt" "Kurt",
    nftOf 72 "katarina" "Katarina",
    nftOf 73 "umar" "Umar",
    nftOf 74 "pistol" "Pistol",
    nftOf 75 "saira" "Saira",
    nftOf 76 "sayuri" "Sayuri",
    nftOf 77 "robert" "Robert",
    nftOf 78 "kato" "Kato",
    nftOf 79 "napoleon" "Napoleon",
    nftOf 80 "kinghenry" "King Henry",
    nftOf 81 "harvey" "Harvey",
    nftOf 82 "agilan" "Agilan",
    nftOf 83 "herman" "Herman",
    nftOf 84 "solo" "Solo",
    nftOf 85 "spats" "Spats",
    nftOf 86 "seriouz" "Seriouz",
    nftOf 87 "little" "Little",
    nftOf 88 "sergio" "Sergio",
    nftOf 89 "helga" "Helga",
    nftOf 90 "ahmed" "Ahmed",
    nftOf 91 "anneke" "Anneke",
    nftOf 92 "confuzius" "Confuzius",
    nftOf 93 "sherlock" "Sherlock",
    nftOf 94 "becky" "Becky",
    nftOf 95 "brigitte" "Brigitte",
    nftOf 96 "cleopatra" "Cleopatra",
    nftOf 97 "maximus" "Maximus",
    nftOf 98 "gruesome" "Gruesome",
    nftOf 99 "kushed" "Kushed",
    nftOf 100 "obi" "Obi"
  ]

/-- `mapNftLookupMain`. It spells the key of character 72 `katrina`, where the character table has
`katarina`. -/
def nftLookupMain : List (Bytes × Nat) :=
  (nftsMain.map fun e => if e.1 = 72 then nftOf 72 "katrina" "Katarina" else e).map fun e => (e.2.strCharKey, e.1)

def mainNfts : NftTable where
  mapNfts := Std.ExtTreeMap.ofList nftsMain compare
  mapNftLookup := Std.ExtTreeMap.ofList nftLookupMain compare

end Stealth
