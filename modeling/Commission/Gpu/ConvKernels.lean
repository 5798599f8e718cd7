import Commission.Noise.Arith

/-! The fitted convolution kernels of `kernel_0A.h` and `kernel_0B.h`, as they are
stored on the device by `init_conv_kernels`. No entry of either is positive. -/
namespace Commission

/-- `-host_kernel_0A[dny][dnx][dnz]` in millionths, one row for each index triple. -/
def hostKernel0A : List (List ℕ) :=
  [[146603, 21053, 214657, 116364, 7605, 133531, 0, 11429,
    38615, 7605, 91152, 58496, 146603, 7605, 21053, 58496],
   [0, 245221, 233896, 79746, 56844, 131242, 103184, 72053,
    95310, 205038, 75892, 160110, 0, 205038, 245221, 160110],
   [63812, 113474, 103342, 0, 255479, 67695, 161450, 33275,
    144500, 23920, 178692, 198451, 63812, 23920, 113474, 198451],
   [65788, 88033, 90080, 73820, 57820, 127663, 85990, 69796,
    0, 98311, 106610, 59806, 65788, 98311, 88033, 59806],
   [17734, 9814, 94139, 0, 23717, 7843, 11788, 52116,
    77117, 21719, 107098, 45962, 17734, 21719, 9814, 45962],
   [136665, 14706, 145068, 87675, 0, 22141, 64052, 132489,
    192593, 130408, 145068, 159946, 136665, 130408, 14706, 159946],
   [160420, 156236, 121361, 175204, 66445, 89612, 201068, 192372,
    81830, 72187, 0, 154151, 160420, 72187, 156236, 154151],
   [231654, 202178, 111026, 0, 235937, 206336, 193914, 157546,
    363965, 175565, 210512, 88553, 231654, 175565, 202178, 88553],
   [998380, 831762, 764529, 0, 1035902, 654248, 903842, 519211,
    1161065, 593859, 1024206, 264977, 998380, 593859, 831762, 264977],
   [1111939, 825806, 883238, 0, 888176, 496001, 1090499, 715805,
    1072480, 335658, 1102694, 543955, 1111939, 335658, 825806, 543955],
   [188243, 60855, 64785, 26170, 88690, 117322, 164040, 64785,
    255011, 24278, 186018, 0, 188243, 24278, 60855, 0],
   [163985, 200275, 108926, 145293, 124926, 0, 133023, 73834,
    58625, 66201, 124926, 224479, 163985, 66201, 200275, 224479],
   [133531, 54782, 0, 18553, 129339, 154764, 108634, 68468,
    56726, 146217, 22306, 161222, 133531, 146217, 54782, 161222],
   [1055916, 926705, 522158, 241856, 992162, 734333, 651497, 359639,
    1046556, 778475, 860102, 0, 1055916, 778475, 926705, 0],
   [4527209, 3348554, 1308333, 0, 3785271, 2553128, 2897968, 1593352,
    3785271, 1151329, 3939422, 61301, 4527209, 1151329, 3348554, 61301],
   [4542230, 3530629, 1372545, 0, 2554356, 1592542, 3709321, 2345006,
    3548979, 81508, 4542230, 1211813, 4542230, 81508, 3530629, 1211813],
   [1001449, 841711, 397097, 78643, 482810, 269835, 867100, 699168,
    723619, 0, 896088, 585149, 1001449, 0, 841711, 585149],
   [89034, 91060, 89034, 213927, 37740, 65032, 45462, 0,
    156004, 78963, 182322, 61088, 89034, 78963, 91060, 61088],
   [180852, 100471, 72413, 68468, 92373, 60625, 0, 104544,
    48974, 96414, 11091, 167723, 180852, 96414, 100471, 167723],
   [909062, 980829, 281747, 448801, 816526, 957299, 333352, 583332,
    1080913, 762459, 675448, 0, 909062, 762459, 980829, 0],
   [3680332, 4697267, 0, 1195426, 2560667, 4129283, 1672547, 2811981,
    4757891, 1113748, 3541496, 84478, 3680332, 1113748, 4697267, 84478],
   [3584587, 4540098, 0, 1255435, 1683628, 2817332, 2525195, 4009470,
    3584587, 57661, 4277734, 1225912, 3584587, 57661, 4540098, 1225912],
   [810642, 888954, 274680, 407777, 340638, 585941, 738019, 934939,
    772420, 0, 1040300, 647993, 810642, 0, 888954, 647993],
   [5775, 0, 107282, 41142, 57271, 142068, 107282, 77806,
    73665, 31192, 98771, 35160, 5775, 31192, 0, 35160],
   [0, 45036, 94210, 122842, 62461, 94210, 218567, 135368,
    135368, 72275, 182689, 152317, 0, 72275, 45036, 152317],
   [119347, 141728, 14389, 166729, 158326, 209840, 0, 196710,
    232112, 149993, 125401, 49415, 119347, 149993, 141728, 49415],
   [772815, 957089, 0, 615186, 611028, 897328, 352821, 886338,
    843551, 516095, 919675, 229357, 772815, 516095, 957089, 229357],
   [681533, 950152, 0, 643023, 385800, 917460, 483174, 888639,
    755818, 151040, 905832, 485070, 681533, 151040, 950152, 485070],
   [146982, 120259, 98192, 151158, 0, 114192, 151158, 142824,
    211521, 55467, 114192, 132504, 146982, 55467, 120259, 132504],
   [63790, 90080, 0, 42071, 102452, 119189, 49914, 127663,
    114978, 136210, 85990, 11300, 63790, 136210, 90080, 11300],
   [50301, 58269, 128691, 111670, 42396, 0, 137312, 70341,
    19048, 72368, 50301, 99091, 50301, 72368, 58269, 99091],
   [172406, 166084, 36236, 93177, 0, 240192, 141186, 73834,
    166084, 185173, 70010, 104965, 172406, 185173, 166084, 104965],
   [21134, 72939, 0, 79093, 83216, 42725, 30890, 50693,
    74986, 106206, 74986, 79093, 21134, 106206, 72939, 79093],
   [114629, 190296, 203483, 155957, 21899, 78840, 0, 151747,
    110589, 108575, 139221, 76889, 114629, 108575, 190296, 76889],
   [96460, 31131, 23257, 104935, 67352, 71459, 3839, 0,
    7692, 126441, 39067, 27186, 96460, 126441, 31131, 27186],
   [72031, 92996, 15565, 27399, 105790, 67890, 3868, 88768,
    63767, 5808, 0, 19494, 72031, 5808, 92996, 19494],
   [15326, 30890, 87357, 169477, 7634, 15326, 0, 83216,
    26977, 95690, 58725, 138432, 15326, 95690, 30890, 138432],
   [15687, 1947, 124126, 115354, 51908, 206742, 0, 72613,
    27615, 3899, 0, 1947, 15687, 3899, 1947, 1947],
   [121423, 0, 19570, 43571, 15625, 55791, 101921, 0,
    80689, 1940, 55791, 37517, 121423, 1940, 0, 37517],
   [119143, 119143, 0, 156569, 182322, 87011, 152341, 33152,
    115069, 127339, 143937, 87011, 119143, 127339, 119143, 87011],
   [112569, 15326, 83216, 0, 42725, 54701, 42725, 108322,
    121116, 81152, 58725, 34820, 112569, 81152, 15326, 34820],
   [85079, 108518, 169636, 144739, 108518, 47196, 225807, 234735,
    195170, 246009, 148846, 0, 85079, 246009, 108518, 0],
   [62035, 119665, 149774, 38319, 58043, 102857, 107033, 0,
    30537, 109127, 54067, 30537, 62035, 109127, 119665, 30537],
   [175127, 51863, 118686, 135080, 90628, 90628, 143379, 86683,
    44288, 210142, 0, 130956, 175127, 210142, 51863, 130956],
   [668939, 0, 872905, 797601, 797601, 480561, 752023, 432670,
    530862, 889807, 228408, 749551, 668939, 889807, 0, 749551],
   [834518, 0, 991966, 664619, 969108, 485776, 1021294, 702840,
    264725, 846941, 677198, 989080, 834518, 846941, 0, 989080],
   [171126, 97299, 312264, 213259, 312264, 205095, 225630, 184974,
    0, 257245, 169163, 292107, 171126, 257245, 97299, 292107],
   [57597, 77558, 0, 41911, 127155, 179341, 57597, 183815,
    69526, 127155, 15038, 55623, 57597, 127155, 77558, 55623],
   [18349, 42718, 144500, 10969, 107383, 170034, 0, 227699,
    79437, 170034, 174353, 185235, 18349, 170034, 42718, 185235],
   [525751, 173032, 961753, 776529, 985284, 841389, 612079, 398821,
    632784, 1034074, 0, 886193, 525751, 1034074, 173032, 886193],
   [1180543, 44060, 4124982, 3741989, 4060443, 2705897, 2476323, 1679740,
    1276204, 4530447, 0, 3915261, 1180543, 4530447, 44060, 3915261],
   [1138255, 0, 4723509, 3544854, 2459145, 1519746, 3807218, 2659815,
    51849, 3544854, 1314012, 3858511, 1138255, 3544854, 0, 3858511],
   [536772, 204390, 965359, 854749, 634752, 444062, 881276, 834023,
    0, 764689, 664605, 995035, 536772, 764689, 204390, 995035],
   [32671, 101400, 121361, 85714, 85714, 0, 205444, 250295,
    74108, 236627, 133531, 168841, 32671, 236627, 101400, 168841],
   [110685, 27961, 198630, 76373, 133531, 0, 80349, 216730,
    76373, 37458, 159065, 131433, 110685, 37458, 27961, 131433],
   [185852, 517825, 994133, 970603, 814792, 1042923, 365525, 616839,
    625036, 1046053, 0, 860602, 185852, 1046053, 517825, 860602],
   [45589, 1194956, 3688879, 4259424, 2561694, 3991160, 1730623, 2454926,
    1178927, 4382027, 0, 3625701, 45589, 4382027, 1194956, 3625701],
   [68038, 1212925, 3406559, 4201489, 1631060, 2563880, 2746202, 3896108,
    0, 3544710, 1260817, 4537961, 68038, 3544710, 1212925, 4537961],
   [402053, 641756, 991301, 1132379, 445311, 685365, 804603, 1144574,
    0, 991301, 915315, 1221045, 402053, 991301, 641756, 1221045],
   [13606, 74108, 47440, 43399, 31375, 47440, 84557, 3868,
    0, 82459, 118749, 17527, 13606, 82459, 74108, 17527],
   [89380, 30191, 37883, 0, 169761, 139390, 26367, 30191,
    77258, 176391, 130880, 85323, 89380, 176391, 30191, 85323],
   [23167, 5742, 125927, 193066, 27081, 108759, 23167, 0,
    104513, 58956, 0, 96074, 23167, 58956, 5742, 96074],
   [0, 678022, 718074, 919814, 643966, 829866, 341880, 727736,
    424401, 824504, 226667, 808588, 0, 824504, 678022, 808588],
   [0, 629198, 943788, 949867, 407826, 633633, 569095, 890678,
    130840, 721857, 443931, 884947, 0, 721857, 629198, 884947],
   [121858, 141390, 212922, 243032, 147325, 196115, 112233, 301475,
    0, 139420, 123794, 283126, 121858, 139420, 141390, 283126],
   [120067, 140857, 18417, 175049, 0, 140857, 140857, 115960,
    18417, 168548, 67951, 65999, 120067, 168548, 140857, 65999],
   [71865, 105766, 0, 153543, 149296, 83699, 115960, 145068,
    99699, 159946, 52446, 91667, 71865, 159946, 105766, 91667],
   [118011, 9166, 128331, 11009, 285252, 83699, 99699, 83699,
    228633, 81717, 0, 177225, 118011, 81717, 9166, 177225],
   [155038, 108518, 124454, 0, 0, 152969, 157110, 203828,
    136576, 250555, 239230, 54658, 155038, 250555, 108518, 54658],
   [53959, 0, 3899, 11742, 19647, 23623, 39688, 11742,
    119730, 62207, 115354, 25617, 53959, 62207, 0, 25617],
   [132725, 0, 178937, 36437, 113555, 76283, 20933, 122029,
    36437, 86498, 100976, 19012, 132725, 86498, 0, 19012],
   [89729, 108267, 85655, 89729, 34159, 0, 61558, 253449,
    166037, 15038, 69526, 65534, 89729, 15038, 108267, 65534]]

/-- `-host_kernel_0B[dny][dnx][dnz]` in millionths, one row for each index triple. -/
def hostKernel0B : List (List ℕ) :=
  [[60855, 155381, 279109, 45291, 84666, 121480, 88690, 0,
    29965, 109057, 68729, 64785, 60855, 109057, 155381, 64785],
   [161268, 120446, 182322, 157110, 132519, 88947, 190869, 182322,
    120446, 128478, 0, 122448, 161268, 128478, 120446, 122448],
   [128901, 133016, 164432, 21899, 29306, 94588, 168696, 102557,
    0, 164432, 78840, 164432, 128901, 164432, 133016, 164432],
   [175959, 171739, 14286, 203828, 178075, 0, 157110, 157110,
    7117, 163354, 132519, 132519, 175959, 163354, 171739, 132519],
   [62520, 28820, 3795, 95310, 120628, 155414, 50496, 103678,
    74691, 99486, 0, 38615, 62520, 99486, 28820, 38615],
   [102809, 55132, 79723, 51092, 92250, 3839, 0, 126441,
    135175, 1918, 15444, 29157, 102809, 1918, 55132, 29157],
   [168397, 54990, 129848, 76666, 181584, 88690, 0, 100861,
    84666, 33774, 113181, 98822, 168397, 33774, 54990, 98822],
   [80515, 163629, 78472, 0, 26770, 154780, 99091, 15209,
    150384, 5676, 70341, 20973, 80515, 5676, 163629, 20973],
   [902789, 702648, 570909, 0, 888317, 546114, 843365, 346929,
    810930, 469531, 774373, 161268, 902789, 469531, 702648, 161268],
   [1003302, 748410, 708315, 0, 1006239, 438255, 965888, 708315,
    799703, 326415, 1060633, 500130, 1003302, 326415, 748410, 500130],
   [128549, 222270, 72496, 126563, 226646, 83838, 313658, 158824,
    285354, 0, 244346, 91471, 128549, 0, 222270, 91471],
   [118716, 71528, 0, 49723, 77558, 93819, 57597, 122927,
    38027, 65534, 139949, 104118, 118716, 65534, 71528, 104118],
   [120819, 150736, 106190, 81599, 0, 0, 102049, 53653,
    11257, 73534, 282719, 1867, 120819, 73534, 150736, 1867],
   [960014, 937913, 610065, 247502, 921653, 905652, 625938, 509045,
    1041454, 802676, 910957, 0, 960014, 802676, 937913, 0],
   [4296469, 3421000, 1187408, 0, 3988984, 2403357, 2632543, 1549198,
    3988984, 1133529, 3644144, 88795, 4296469, 1133529, 3421000, 88795],
   [4705814, 3276347, 1281359, 0, 2656225, 1567765, 4543295, 2515147,
    3349372, 118448, 4206823, 1138770, 4705814, 118448, 3276347, 1138770],
   [1001509, 894062, 498475, 247562, 737998, 379490, 963438, 814225,
    770635, 0, 1105213, 740294, 1001509, 0, 894062, 740294],
   [149192, 212238, 147158, 210071, 159428, 0, 131028, 197168,
    139060, 50370, 197168, 149192, 149192, 50370, 212238, 149192],
   [71806, 57820, 94187, 94187, 140511, 0, 110785, 53859,
    140511, 75838, 73820, 59806, 71806, 75838, 57820, 59806],
   [809219, 1000815, 168716, 469091, 764099, 976273, 371792, 684056,
    928927, 622633, 840472, 0, 809219, 622633, 1000815, 0],
   [3615233, 4694043, 0, 1199319, 2723235, 3698615, 1641152, 2490303,
    4436213, 1126998, 3501904, 90050, 3615233, 1126998, 4694043, 90050],
   [3351000, 4619511, 0, 1267660, 1680937, 2722391, 2499248, 4044147,
    3261388, 41941, 4514151, 1134858, 3351000, 41941, 4619511, 1134858],
   [874127, 1078678, 213681, 388826, 504137, 597227, 699881, 779549,
    871450, 0, 1197284, 673213, 874127, 0, 1078678, 673213],
   [75508, 113474, 200671, 0, 115513, 123710, 95310, 165733,
    10969, 109409, 157186, 127833, 75508, 109409, 113474, 127833],
   [105361, 99318, 196236, 40822, 0, 103342, 187425, 75508,
    148711, 117556, 103342, 109409, 105361, 117556, 99318, 109409],
   [169769, 188657, 61502, 223144, 127036, 305382, 0, 167692,
    171850, 131028, 291197, 5277, 169769, 131028, 188657, 5277],
   [864997, 1045321, 0, 816207, 618137, 1015820, 379490, 890315,
    1069565, 533897, 1027516, 306811, 864997, 533897, 1045321, 306811],
   [842747, 1100720, 0, 850109, 452888, 916291, 691044, 970358,
    905819, 316876, 942959, 503833, 842747, 316876, 1100720, 503833],
   [239000, 176218, 0, 207116, 142316, 142316, 215520, 178248,
    170151, 166127, 258630, 160121, 239000, 166127, 176218, 160121],
   [89034, 99207, 105361, 109484, 49346, 68993, 0, 227784,
    186776, 97164, 109484, 3711, 89034, 97164, 99207, 3711],
   [55623, 122927, 45810, 3738, 0, 157265, 11257, 135666,
    110348, 65534, 18833, 172667, 55623, 65534, 122927, 172667],
   [88379, 84281, 107033, 86328, 82238, 94559, 0, 115436,
    70068, 56053, 22815, 70068, 88379, 56053, 84281, 70068],
   [174523, 139139, 73834, 170295, 174523, 128966, 85395, 108926,
    0, 159801, 170295, 102991, 174523, 159801, 139139, 102991],
   [213896, 213896, 0, 125839, 222299, 218089, 137400, 129678,
    235038, 235038, 160930, 176931, 213896, 235038, 213896, 176931],
   [52592, 11451, 85116, 105993, 52592, 105993, 189558, 135974,
    93414, 50594, 40664, 0, 52592, 50594, 11451, 0],
   [286529, 113467, 169258, 121249, 224009, 109599, 0, 140974,
    185788, 119298, 98082, 226176, 286529, 119298, 113467, 226176],
   [76889, 145464, 151747, 258041, 207917, 51863, 0, 118686,
    139221, 65261, 55673, 145464, 76889, 65261, 145464, 145464],
   [53637, 0, 13632, 17561, 5820, 70099, 25467, 86836,
    9718, 65958, 37443, 108158, 53637, 65958, 0, 108158],
   [218297, 148279, 156509, 104183, 185861, 96371, 247284, 152385,
    0, 119994, 104183, 84765, 218297, 119994, 148279, 84765],
   [0, 3868, 140728, 15565, 63767, 47440, 80365, 72031,
    35367, 53531, 145182, 21464, 0, 53531, 3868, 21464],
   [64294, 18485, 0, 124675, 92019, 145640, 206794, 137201,
    72138, 154151, 184522, 88011, 64294, 154151, 18485, 88011],
   [25122, 31010, 96074, 63013, 19268, 7663, 27081, 23167,
    100284, 156698, 0, 91881, 25122, 156698, 31010, 91881],
   [21216, 34955, 46884, 130265, 138999, 0, 117306, 67086,
    27081, 100284, 75283, 13449, 21216, 100284, 34955, 13449],
   [126121, 0, 204468, 99989, 217772, 42169, 204468, 92084,
    208883, 176236, 34707, 118007, 126121, 176236, 0, 118007],
   [775879, 0, 932532, 775879, 986600, 631778, 727088, 387221,
    536862, 923799, 41110, 770891, 775879, 923799, 0, 770891],
   [620222, 0, 832436, 739104, 681396, 248280, 997516, 618027,
    131170, 813593, 482852, 929378, 620222, 813593, 0, 929378],
   [99989, 0, 200072, 174097, 157147, 80342, 208883, 88155,
    42169, 146698, 136357, 178380, 99989, 146698, 0, 178380],
   [153857, 151806, 172511, 96015, 228439, 80630, 103797, 176704,
    143643, 183026, 0, 129515, 153857, 183026, 151806, 129515],
   [42877, 105766, 0, 40974, 183782, 149296, 91667, 111870,
    136665, 118011, 79739, 168548, 42877, 118011, 105766, 168548],
   [599547, 270434, 1012645, 1006915, 962214, 973204, 646248, 387875,
    893586, 1121845, 0, 817476, 599547, 1121845, 270434, 817476],
   [1102566, 33824, 4996086, 3609791, 3492008, 2162872, 2233968, 1634553,
    1231017, 4345498, 0, 3455640, 1102566, 4345498, 33824, 3455640],
   [1187042, 0, 4497585, 3622116, 2537490, 1724996, 3909798, 2381329,
    38597, 3244822, 1168958, 3996810, 1187042, 3244822, 0, 3996810],
   [557097, 190878, 947027, 901822, 494517, 376734, 952824, 869210,
    0, 877264, 566929, 944141, 557097, 877264, 190878, 944141],
   [59348, 150132, 178611, 53448, 0, 53448, 93453, 49534,
    18762, 114072, 147974, 63300, 59348, 114072, 150132, 63300],
   [191821, 148711, 140308, 115513, 0, 40822, 99318, 10969,
    152939, 101328, 136132, 73549, 191821, 101328, 148711, 73549],
   [270505, 590493, 955511, 1145429, 960932, 1088271, 426474, 777705,
    814575, 1037132, 0, 793668, 270505, 1037132, 590493, 793668],
   [75008, 1143161, 3588847, 4013730, 3085743, 4649719, 1687888, 2477495,
    1305680, 4172794, 0, 3929172, 75008, 4172794, 1143161, 3929172],
   [35678, 1124689, 3597860, 4737294, 1741562, 2597228, 2447288, 4737294,
    0, 3432346, 1244582, 4619511, 35678, 3432346, 1124689, 4619511],
   [237038, 472604, 970779, 931558, 418537, 663294, 832260, 1105127,
    0, 880677, 650768, 1085709, 237038, 880677, 472604, 1085709],
   [31988, 136711, 93090, 41594, 143101, 80969, 109484, 80969,
    0, 173472, 173472, 14926, 31988, 173472, 136711, 14926],
   [130314, 13245, 141079, 0, 3766, 30537, 167396, 66043,
    128175, 84281, 34420, 82238, 130314, 84281, 13245, 82238],
   [37808, 162727, 116018, 152385, 168983, 185861, 0, 21429,
    160650, 256375, 28676, 236035, 37808, 256375, 162727, 236035],
   [0, 689808, 802604, 1088629, 663491, 958414, 408815, 778033,
    549081, 848413, 274026, 896423, 0, 848413, 689808, 896423],
   [0, 700929, 914078, 970912, 408793, 814258, 579186, 1000588,
    169776, 905825, 670158, 927987, 0, 905825, 700929, 927987],
   [3591, 195309, 260574, 274626, 0, 125880, 201866, 201866,
    7194, 129954, 40225, 113759, 3591, 129954, 195309, 113759],
   [136059, 130004, 207368, 152385, 190126, 0, 181615, 112057,
    203029, 94427, 69498, 173176, 136059, 94427, 130004, 173176],
   [1881, 126041, 0, 15152, 90435, 30537, 38319, 50107,
    149774, 117548, 66043, 130314, 1881, 117548, 126041, 130314],
   [11385, 122274, 159195, 99091, 50301, 0, 78472, 11385,
    3781, 97010, 70341, 97010, 11385, 97010, 122274, 97010],
   [66561, 133531, 46520, 0, 182322, 124911, 34686, 11429,
    62520, 21053, 11429, 76734, 66561, 21053, 133531, 76734],
   [100379, 79887, 114978, 57820, 34289, 106610, 85990, 0,
    65788, 57820, 81917, 106610, 100379, 57820, 79887, 106610],
   [128549, 173272, 126563, 231042, 0, 134531, 118658, 200671,
    196406, 144581, 150660, 148630, 128549, 144581, 173272, 148630],
   [128966, 62406, 170295, 120902, 174523, 174523, 166084, 200275,
    128966, 0, 112902, 226709, 128966, 0, 62406, 226709]]

section

variable {F : Type} [Arith F]

/-- Entry `[dny][dnx][dnz][p]` of a host table. -/
def hostEntry (table : List (List ℕ)) (dny dnx dnz p : ℕ) : ℚ :=
  -(((table.getD ((dny * 6 + dnx) * 6 + dnz) []).getD p 0 : ℕ) : ℚ) / 10 ^ 6

/-- A convolution kernel on the device, indexed `[dnx][dnz][p][dny]`. -/
abbrev ConvKernel (F : Type) := ℕ → ℕ → ℕ → ℕ → F

/-- The transposition which `init_conv_kernels` copies to the device. -/
def initConvKernel (table : List (List ℕ)) : ConvKernel F :=
  fun dnx dnz p dny => Arith.const (hostEntry table dny dnx dnz p)

def deviceKernel0A : ConvKernel F := initConvKernel hostKernel0A

def deviceKernel0B : ConvKernel F := initConvKernel hostKernel0B

end

end Commission
