import BlockPuzzle.Level.Catalog.Entry

/-!
# World 2: levels 26 to 50
-/

namespace BlockPuzzle.Catalog

def ocean : List Entry := [
  { id := 26, world := 2, title := "Ocean Start"
    rows := ["######", "#S...#", "####.#", "####G#", "######"]
    start := ⟨⟨1, 1⟩, .right⟩, palette := allMoves, optimalSteps := 5
    hint := "Dive into the ocean!" },
  { id := 27, world := 2, title := "Coral Path"
    rows := ["######", "#S.###", "##.###", "##.$G#", "######"]
    start := ⟨⟨1, 1⟩, .right⟩, palette := allMoves, optimalSteps := 5
    hint := "Swim past the coral!" },
  { id := 28, world := 2, title := "Treasure Dive"
    rows := ["######", "#S.$##", "###.##", "###.##", "###G##", "######"]
    start := ⟨⟨1, 1⟩, .right⟩, palette := allMoves, optimalSteps := 5
    hint := "Dive deep for treasure!" },
  { id := 29, world := 2, title := "Wave Rider"
    rows := ["#######", "#S..###", "###.$##", "####..#", "#####G#", "#######"]
    start := ⟨⟨1, 1⟩, .right⟩, palette := allMoves, optimalSteps := 7
    hint := "Ride the waves!" },
  { id := 30, world := 2, title := "Shell Collect"
    rows := ["######", "#S*$.#", "####.#", "##$..#", "##G###", "######"]
    start := ⟨⟨1, 1⟩, .right⟩, palette := allMoves, optimalSteps := 7
    hint := "Collect shells and gems!" },
  { id := 31, world := 2, title := "Deep Sea"
    rows := ["#####", "#S.##", "##.##", "##.$#", "###.#", "###G#", "#####"]
    start := ⟨⟨1, 1⟩, .right⟩, palette := allMoves, optimalSteps := 6
    hint := "Go deeper!" },
  { id := 32, world := 2, title := "Seahorse Trail"
    rows := ["#######", "#S.$.*#", "#####.#", "#G$...#", "#######"]
    start := ⟨⟨1, 1⟩, .right⟩, palette := allMoves, optimalSteps := 10
    hint := "Follow the seahorse!" },
  { id := 33, world := 2, title := "Reef Maze"
    rows := ["######", "#S.#.#", "##.#.#", "##.$.#", "####G#", "######"]
    start := ⟨⟨1, 1⟩, .right⟩, palette := allMoves, optimalSteps := 7
    hint := "Navigate the reef!" },
  { id := 34, world := 2, title := "Whirlpool"
    rows := ["######", "#..$##", "#.#.##", "#S#G##", "######"]
    start := ⟨⟨3, 1⟩, .up⟩, palette := allMoves, optimalSteps := 6
    hint := "Avoid the whirlpool!" },
  { id := 35, world := 2, title := "Anchor Drop"
    rows := ["#####", "#S###", "#.###", "#.$.#", "###.#", "###G#", "#####"]
    start := ⟨⟨1, 1⟩, .down⟩, palette := allMoves, optimalSteps := 6
    hint := "Drop anchor at the goal!" },
  { id := 36, world := 2, title := "Pearl Path"
    rows := ["######", "#S$.##", "###.##", "#G$.##", "######"]
    start := ⟨⟨1, 1⟩, .right⟩, palette := allMoves, optimalSteps := 5
    hint := "Find the pearls!" },
  { id := 37, world := 2, title := "Starfish"
    rows := ["######", "##*###", "#*S$##", "##.###", "##G###", "######"]
    start := ⟨⟨2, 2⟩, .down⟩, palette := allMoves, optimalSteps := 2
    hint := "A starfish shape!" },
  { id := 38, world := 2, title := "Submarine"
    rows := ["#######", "#S.$..#", "#.###.#", "#G$...#", "#######"]
    start := ⟨⟨1, 1⟩, .right⟩, palette := allMoves, optimalSteps := 10
    hint := "Circle like a submarine!" },
  { id := 39, world := 2, title := "Jellyfish"
    rows := ["######", "#S.$##", "###..#", "#G$.##", "######"]
    start := ⟨⟨1, 1⟩, .right⟩, palette := allMoves, optimalSteps := 6
    hint := "Float like a jellyfish!" },
  { id := 40, world := 2, title := "Dolphin Jump"
    rows := ["#######", "#S.#.G#", "##.$.##", "#######"]
    start := ⟨⟨1, 1⟩, .right⟩, palette := allMoves, optimalSteps := 6
    hint := "Jump like a dolphin!" },
  { id := 41, world := 2, title := "Tidal Wave"
    rows := ["######", "#S.$##", "###.##", "##..##", "##.###", "##G###", "######"]
    start := ⟨⟨1, 1⟩, .right⟩, palette := allMoves, optimalSteps := 8
    hint := "Ride the tidal wave!" },
  { id := 42, world := 2, title := "Octopus Arms"
    rows := ["#######", "##.#$##", "#.S...#", "##.##G#", "#######"]
    start := ⟨⟨2, 2⟩, .right⟩, palette := allMoves, optimalSteps := 4
    hint := "Like an octopus!" },
  { id := 43, world := 2, title := "Sunken Ship"
    rows := ["######", "#S.$$#", "####.#", "##$..#", "##G###", "######"]
    start := ⟨⟨1, 1⟩, .right⟩, palette := allMoves, optimalSteps := 7
    hint := "Explore the sunken ship!" },
  { id := 44, world := 2, title := "Kelp Forest"
    rows := ["#######", "#S.#$.#", "##.#.##", "##.$.##", "####G##", "#######"]
    start := ⟨⟨1, 1⟩, .right⟩, palette := allMoves, optimalSteps := 8
    hint := "Swim through the kelp!" },
  { id := 45, world := 2, title := "Bubble Trail"
    rows := ["######", "#S*$##", "###.##", "##..##", "##$*##", "##G###", "######"]
    start := ⟨⟨1, 1⟩, .right⟩, palette := allMoves, optimalSteps := 8
    hint := "Follow the bubbles!" },
  { id := 46, world := 2, title := "Shark Dodge"
    rows := ["#######", "#S.$..#", "#####.#", "#####.#", "#G$...#", "#######"]
    start := ⟨⟨1, 1⟩, .right⟩, palette := allMoves, optimalSteps := 12
    hint := "Dodge the sharks!" },
  { id := 47, world := 2, title := "Coral Reef"
    rows := ["######", "#S.$##", "###..#", "##*.G#", "######"]
    start := ⟨⟨1, 1⟩, .right⟩, palette := allMoves, optimalSteps := 6
    hint := "Beautiful coral reef!" },
  { id := 48, world := 2, title := "Fish School"
    rows := ["######", "#S.$.#", "####.#", "##.$.#", "##.###", "##G###", "######"]
    start := ⟨⟨1, 1⟩, .right⟩, palette := allMoves, optimalSteps := 9
    hint := "Swim with the fish!" },
  { id := 49, world := 2, title := "Treasure Chest"
    rows := ["#######", "#S*$*$#", "#####.#", "#G$.$.#", "#######"]
    start := ⟨⟨1, 1⟩, .right⟩, palette := allMoves, optimalSteps := 10
    hint := "Find the treasure!" },
  { id := 50, world := 2, title := "Ocean Boss"
    rows := ["#######", "#S.$*.#", "#####.#", "##*$..#", "##.####", "##.$$G#", "#######"]
    start := ⟨⟨1, 1⟩, .right⟩, palette := allMoves, optimalSteps := 14
    hint := "Defeat the ocean boss!" }]

end BlockPuzzle.Catalog
