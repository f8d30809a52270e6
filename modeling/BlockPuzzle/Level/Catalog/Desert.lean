import BlockPuzzle.Level.Catalog.Entry

/-!
# World 3: levels 51 to 75
-/

namespace BlockPuzzle.Catalog

def desert : List Entry := [
  { id := 51, world := 3, title := "Loop Intro"
    rows := ["########", "#S....G#", "########"]
    start := ⟨⟨1, 1⟩, .right⟩, palette := allMoves, optimalSteps := 2
    hint := "Use Repeat to move 5 times!" },
  { id := 52, world := 3, title := "Straight Line"
    rows := ["#########", "#S.....G#", "#########"]
    start := ⟨⟨1, 1⟩, .right⟩, palette := allMoves, optimalSteps := 2
    hint := "Repeat → arrow!" },
  { id := 53, world := 3, title := "Star Line"
    rows := ["########", "#S*$*$G#", "########"]
    start := ⟨⟨1, 1⟩, .right⟩, palette := allMoves, optimalSteps := 2
    hint := "Stars and diamonds along a line!" },
  { id := 54, world := 3, title := "Loop Corner"
    rows := ["######", "#S...#", "####.#", "####.#", "####G#", "######"]
    start := ⟨⟨1, 1⟩, .right⟩, palette := allMoves, optimalSteps := 4
    hint := "Loop right then loop down!" },
  { id := 55, world := 3, title := "Square Walk"
    rows := ["######", "#S...#", "####.#", "####.#", "##G$.#", "######"]
    start := ⟨⟨1, 1⟩, .right⟩, palette := allMoves, optimalSteps := 6
    hint := "Walk in a square!" },
  { id := 56, world := 3, title := "Repeat Down"
    rows := ["######", "#S.$##", "###.##", "###.$#", "####G#", "######"]
    start := ⟨⟨1, 1⟩, .right⟩, palette := allMoves, optimalSteps := 4
    hint := "Repeat: → then ↓!" },
  { id := 57, world := 3, title := "Loop Gems"
    rows := ["########", "#S$$$$G#", "########"]
    start := ⟨⟨1, 1⟩, .right⟩, palette := allMoves, optimalSteps := 2
    hint := "Collect all gems with a loop!" },
  { id := 58, world := 3, title := "Staircase"
    rows := ["######", "#S.###", "##.$##", "###..#", "####G#", "######"]
    start := ⟨⟨1, 1⟩, .right⟩, palette := allMoves, optimalSteps := 4
    hint := "Go down the stairs with loops!" },
  { id := 59, world := 3, title := "Desert Sprint"
    rows := ["##########", "#S$.$.$.G#", "##########"]
    start := ⟨⟨1, 1⟩, .right⟩, palette := allMoves, optimalSteps := 2
    hint := "Sprint across the desert!" },
  { id := 60, world := 3, title := "Cactus Path"
    rows := ["######", "#S.$.#", "####.#", "#G$..#", "######"]
    start := ⟨⟨1, 1⟩, .right⟩, palette := allMoves, optimalSteps := 6
    hint := "Avoid the cacti!" },
  { id := 61, world := 3, title := "Oasis"
    rows := ["#######", "#S.$*.#", "#####.#", "#G$.$.#", "#######"]
    start := ⟨⟨1, 1⟩, .right⟩, palette := allMoves, optimalSteps := 6
    hint := "Find the oasis!" },
  { id := 62, world := 3, title := "Sand Dunes"
    rows := ["########", "#S.#$.##", "##.#.###", "##.$.###", "####G###", "########"]
    start := ⟨⟨1, 1⟩, .right⟩, palette := allMoves, optimalSteps := 6
    hint := "Over the sand dunes!" },
  { id := 63, world := 3, title := "Pyramid Step"
    rows := ["#######", "#S.####", "##.$###", "###..##", "####.$#", "#####G#", "#######"]
    start := ⟨⟨1, 1⟩, .right⟩, palette := allMoves, optimalSteps := 4
    hint := "Climb the pyramid!" },
  { id := 64, world := 3, title := "Mirage"
    rows := ["#######", "#S.$..#", "#.###.#", "#G$.$.#", "#######"]
    start := ⟨⟨1, 1⟩, .right⟩, palette := allMoves, optimalSteps := 6
    hint := "Is it a mirage?" },
  { id := 65, world := 3, title := "Scarab Trail"
    rows := ["########", "#S$.$.$#", "######G#", "########"]
    start := ⟨⟨1, 1⟩, .right⟩, palette := allMoves, optimalSteps := 3
    hint := "Follow the scarabs!" },
  { id := 66, world := 3, title := "Double Loop"
    rows := ["######", "#S.$.#", "####.#", "####.#", "####.#", "####G#", "######"]
    start := ⟨⟨1, 1⟩, .right⟩, palette := allMoves, optimalSteps := 4
    hint := "Two loops in one!" },
  { id := 67, world := 3, title := "Sand Snake"
    rows := ["#######", "#S.$.##", "####.##", "##$..##", "##.####", "##.$G##", "#######"]
    start := ⟨⟨1, 1⟩, .right⟩, palette := allMoves, optimalSteps := 8
    hint := "Slither like a snake!" },
  { id := 68, world := 3, title := "Tomb Entry"
    rows := ["######", "#S.$*#", "####.#", "##*$.#", "##G###", "######"]
    start := ⟨⟨1, 1⟩, .right⟩, palette := allMoves, optimalSteps := 7
    hint := "Enter the tomb!" },
  { id := 69, world := 3, title := "Loop Practice"
    rows := ["#######", "#S.$..#", "#####.#", "#####.#", "#####G#", "#######"]
    start := ⟨⟨1, 1⟩, .right⟩, palette := allMoves, optimalSteps := 4
    hint := "Practice your loops!" },
  { id := 70, world := 3, title := "Desert Cross"
    rows := ["#######", "###$###", "###.###", "#$.S.$#", "###.###", "###G###", "#######"]
    start := ⟨⟨3, 3⟩, .down⟩, palette := allMoves, optimalSteps := 2
    hint := "A desert crossroads!" },
  { id := 71, world := 3, title := "Camel Ride"
    rows := ["########", "#S$.$..#", "######.#", "#G$.$..#", "########"]
    start := ⟨⟨1, 1⟩, .right⟩, palette := allMoves, optimalSteps := 6
    hint := "Ride the camel!" },
  { id := 72, world := 3, title := "Sandstorm"
    rows := ["######", "#S.$.#", "####.#", "##$*.#", "##G###", "######"]
    start := ⟨⟨1, 1⟩, .right⟩, palette := allMoves, optimalSteps := 7
    hint := "Brave the sandstorm!" },
  { id := 73, world := 3, title := "Pharaoh Path"
    rows := ["#######", "#S.$$##", "####.##", "####.$#", "#####.#", "#####G#", "#######"]
    start := ⟨⟨1, 1⟩, .right⟩, palette := allMoves, optimalSteps := 7
    hint := "Walk the pharaoh path!" },
  { id := 74, world := 3, title := "Sphinx Riddle"
    rows := ["########", "#S*$*$*#", "######.#", "#G$.$..#", "########"]
    start := ⟨⟨1, 1⟩, .right⟩, palette := allMoves, optimalSteps := 6
    hint := "Solve the sphinx riddle!" },
  { id := 75, world := 3, title := "Desert Boss"
    rows := ["########", "#S.$.$*#", "######.#", "##$.$..#", "##.#####", "##.$$G##", "########"]
    start := ⟨⟨1, 1⟩, .right⟩, palette := allMoves, optimalSteps := 10
    hint := "Defeat the desert boss!" }]

end BlockPuzzle.Catalog
